import Galdr.WordOrder

/-!
# Where the feed of a move comes from

The feed of a line means the inverse of a time under `G93` and a speed under `G94`, but the
modal state holds one number for both. A `G93` move must have its feed on its own line. A `G94`
move may use the modal feed, also when that was programmed under `G93`: the feed is not
forgotten when the mode is switched.

The history of a program remembers, next to the modal state, the mode under which its feed was
programmed and whether the mode has been switched since (`FeedHistory`). A line keeps the two
meanings apart if and only if it does not ask for a speed that was programmed before the switch
(`isolates_iff`).
-/

namespace Galdr

variable {K : Type}

/-! ## Asking for a feed -/

/-- The feed that a command moves at, and the mode that it is read in. -/
def PlannerCommand.feedUse : PlannerCommand K → Option (K × FeedMode)
  | .move false _ _ _ feed feedMode _ => some (feed, feedMode)
  | .arc _ _ _ _ _ _ _ _ feed feedMode _ => some (feed, feedMode)
  | .probe _ _ _ _ feed => some (feed, .unitsPerMin)
  | _ => none

/-- The line asks for a feed: a motion that is not a rapid has axis words, and no other word
takes the line from it. A probe asks for a speed only. -/
def LineState.asksFeed (s : LineState K) : Bool :=
  !s.taken && s.acc.pendingCoordinate.isNone && s.acc.axes.any &&
    match s.acc.pendingProbe with
    | some _ => s.acc.axes.a.isNone && s.next.feedMode != .inverseTime
    | none => s.next.motion != .rapid

section Asking

variable [Field K] [LinearOrder K] [FloorRing K]

/-- The command of a line that asks for a feed, if it has one. -/
def feedCommand (s : LineState K) : PlannerCommand K :=
  match s.acc.pendingProbe with
  | some kind => .probe kind s.acc.axes s.next.units s.next.distance s.next.feed
  | none => motionCommand s.acc s.next

/-- A line that asks for a feed is refused if that is undefined, and moves otherwise. -/
theorem finish_of_asksFeed {s : LineState K} (h : s.asksFeed = true) (state : ModalState K) :
    s.finish state =
      if feedIsUndefined s.next s.acc.sawFeed true then (.error .feedRateUndefined, state)
      else (.ok (some (feedCommand s)), s.next) := by
  obtain ⟨guard, ⟨predefined, dwell, probe, spindle, programEnd, pause, coolant, coordinate,
    machineCoords, selectedWcs, l, sawFeed, axes, i, j, k, p⟩, next⟩ := s
  simp only [LineState.asksFeed, LineState.taken, Bool.and_eq_true, Bool.not_eq_true',
    Bool.or_eq_false_iff, Option.isSome_eq_false_iff, Option.isNone_iff_eq_none] at h
  obtain ⟨⟨⟨⟨⟨⟨rfl, rfl⟩, rfl⟩, rfl⟩, rfl⟩, haxes⟩, hprobe⟩ := h
  cases probe with
  | some kind =>
    obtain ⟨ha, hmode⟩ : axes.a = none ∧ next.feedMode ≠ .inverseTime := by simpa using hprobe
    cases hundefined : feedIsUndefined next sawFeed true <;>
      simp [LineState.finish, emit, probeCommand, feedCommand, haxes, ha, hmode, hundefined]
  | none =>
    have hmotion : (next.motion != .rapid) = true := hprobe
    cases hundefined : feedIsUndefined next sawFeed true <;>
      simp [LineState.finish, emit, feedCommand, haxes, hmotion, hundefined]

omit [FloorRing K] in
/-- A probe that is made has no rotary axis, and moves at the speed of the modal state. -/
theorem probeCommand_ok {kind : ProbeKind} {acc : LineAccumulator K} {state : ModalState K}
    {command : PlannerCommand K} (h : probeCommand kind acc state = .ok (some command)) :
    acc.axes.a = none ∧ state.feedMode = .unitsPerMin ∧
      command.feedUse = some (state.feed, .unitsPerMin) := by
  unfold probeCommand at h
  split_ifs at h with ha hmode hundefined
  obtain rfl := Option.some.inj (Except.ok.inj h)
  refine ⟨by simpa using ha, ?_, rfl⟩
  cases hfeedMode : state.feedMode with
  | unitsPerMin => rfl
  | inverseTime => exact absurd hfeedMode hmode

omit [Field K] [LinearOrder K] [FloorRing K] in
/-- A motion moves at the feed of the modal state, unless it is a rapid. -/
theorem motionCommand_feedUse (acc : LineAccumulator K) (state : ModalState K) :
    (motionCommand acc state).feedUse =
      if state.motion = .rapid then none else some (state.feed, state.feedMode) := by
  unfold motionCommand
  cases state.motion <;> rfl

/-- A probe that is accepted has axis words. -/
theorem axes_of_finish {s : LineState K} {state next : ModalState K}
    {command : Option (PlannerCommand K)} (h : s.finish state = (.ok command, next))
    (hprobe : s.acc.pendingProbe.isSome = true) : s.acc.axes.any = true := by
  by_contra hnot
  unfold LineState.finish at h
  rw [if_pos (by simp [hprobe, hnot])] at h
  cases h

/-- A line that moves at a feed has asked for it. -/
theorem asksFeed_of_finish {s : LineState K} {state next : ModalState K}
    {command : PlannerCommand K} {use : K × FeedMode}
    (h : s.finish state = (.ok (some command), next)) (huse : command.feedUse = some use) :
    s.asksFeed = true ∧ use = (s.next.feed, s.next.feedMode) := by
  have hemit := (next_of_finish h).1
  unfold LineState.asksFeed LineState.taken
  cases hend : s.acc.pendingProgramEnd with
  | true =>
    simp only [emit, hend, if_true] at hemit
    cases hemit
    cases huse
  | false =>
  cases hpause : s.acc.pendingPause with
  | some pause =>
    simp only [emit, hend, hpause] at hemit
    cases hemit
    cases huse
  | none =>
  cases hdwell : s.acc.pendingDwell with
  | true =>
    simp only [emit, hend, hpause, hdwell, if_true] at hemit
    cases hemit
    cases huse
  | false =>
  cases hpredefined : s.acc.pendingPredefined with
  | some isG28 =>
    simp only [emit, hend, hpause, hdwell, hpredefined] at hemit
    cases hemit
    cases huse
  | none =>
  cases hcoordinate : s.acc.pendingCoordinate with
  | some pending =>
    simp only [emit, hend, hpause, hdwell, hpredefined, hcoordinate] at hemit
    cases hemit
    cases huse
  | none =>
  simp only [emit, hend, hpause, hdwell, hpredefined, hcoordinate, Bool.false_eq_true,
    if_false] at hemit
  cases hprobe : s.acc.pendingProbe with
  | some kind =>
    rw [hprobe] at hemit
    obtain ⟨ha, hmode, huse'⟩ := probeCommand_ok hemit
    have hany := axes_of_finish h (by rw [hprobe]; rfl)
    rw [huse'] at huse
    simp [hany, ha, hmode, ← Option.some.inj huse]
  | none =>
    rw [hprobe] at hemit
    cases hany : s.acc.axes.any with
    | true =>
      simp only [hany, if_true] at hemit
      split_ifs at hemit with hundefined
      obtain rfl := Option.some.inj (Except.ok.inj hemit)
      rw [motionCommand_feedUse] at huse
      split_ifs at huse with hmotion
      simp [hmotion, ← Option.some.inj huse]
    | false =>
      simp only [hany, Bool.false_eq_true, if_false] at hemit
      cases hspindle : s.acc.pendingSpindle with
      | some spindle =>
        rw [hspindle] at hemit
        cases hemit
        cases huse
      | none =>
        rw [hspindle] at hemit
        cases hcoolant : s.acc.pendingCoolant with
        | some coolant =>
          rw [hcoolant] at hemit
          cases hemit
          cases huse
        | none =>
          rw [hcoolant] at hemit
          dsimp only at hemit
          split_ifs at hemit
          · cases hemit
            cases huse
          · cases hemit

end Asking

/-! ## The history of the feed -/

/-- What a program has done to the feed. -/
structure FeedHistory (K : Type) where
  /-- The modal state. -/
  state : ModalState K
  /-- The mode of the line that programmed the feed. -/
  source : Option FeedMode
  /-- The mode has been switched, and no feed was programmed since. -/
  switched : Bool

namespace FeedHistory

/-- The history at power-on. -/
def powerOn [Zero K] : FeedHistory K := ⟨.default, none, false⟩

/-- The history behind an accepted line. The mode and the feed of a line are read in either
order. -/
def after (h : FeedHistory K) (s : LineState K) : FeedHistory K where
  state := s.next
  source := if s.acc.sawFeed then some s.next.feedMode else h.source
  switched := !s.acc.sawFeed && (h.switched || s.next.feedMode != h.state.feedMode)

variable [Field K] [LinearOrder K] [FloorRing K]

/-- The words of a line, applied to the modal state. -/
def fold (h : FeedHistory K) (line : List UInt8) : Except GcodeError (LineState K) :=
  (LineState.start h.state).applyWords (Lexer.words line)

/-- The history behind a line. A rejected line leaves it. -/
def parse (h : FeedHistory K) (line : List UInt8) : FeedHistory K :=
  match h.fold line, (parseLine h.state line).1 with
  | .ok s, .ok _ => h.after s
  | _, _ => h

/-- The history of a program. -/
def ofLines (lines : List (List UInt8)) : FeedHistory K := lines.foldl parse powerOn

/-- A feed that a line may use: under `G93` it is on the line, and under `G94` it was programmed
since the mode was switched. -/
def Fresh (h : FeedHistory K) (s : LineState K) : Prop :=
  match s.next.feedMode with
  | .inverseTime => s.acc.sawFeed = true
  | .unitsPerMin => (h.after s).switched = false

/-- The line keeps the two meanings of the feed apart. -/
structure Isolates (h : FeedHistory K) (line : List UInt8) : Prop where
  /-- A line that asks for a feed and has none that it may use is refused. -/
  refused : ∀ s, h.fold line = .ok s → s.asksFeed = true → ¬h.Fresh s →
    parseLine h.state line = (.error .feedRateUndefined, h.state)
  /-- The feed that a command moves at was programmed under the mode that it is read in. -/
  used : ∀ command next use, parseLine h.state line = (.ok (some command), next) →
    command.feedUse = some use → (h.parse line).source = some use.2

/-- The line does not ask for a speed that was programmed before the mode was switched. -/
def Fed (h : FeedHistory K) (line : List UInt8) : Prop :=
  ∀ s, h.fold line = .ok s → s.asksFeed = true → s.next.feedMode = .unitsPerMin →
    (h.after s).switched = true → s.next.feed ≤ 0

/-- A feed that was programmed since the mode was switched was programmed under that mode. -/
def Traced (h : FeedHistory K) : Prop :=
  h.switched = false → 0 < h.state.feed → h.source = some h.state.feedMode

/-! ## The feed of a line without a feed word -/

omit [Field K] [LinearOrder K] [FloorRing K] in
/-- Only a feed word programs the feed. -/
theorem run_feed (e : WordEffect K) (s : LineState K) (h : (e.run s).acc.sawFeed = false) :
    s.acc.sawFeed = false ∧ (e.run s).next.feed = s.next.feed := by
  cases e with
  | parameter name value => cases name <;> exact ⟨h, rfl⟩
  | feed value => cases h
  | _ => exact ⟨h, rfl⟩

omit [Field K] [LinearOrder K] [FloorRing K] in
theorem runAll_feed (effects : List (WordEffect K)) (s : LineState K)
    (h : (s.runAll effects).acc.sawFeed = false) :
    s.acc.sawFeed = false ∧ (s.runAll effects).next.feed = s.next.feed := by
  induction effects generalizing s with
  | nil => exact ⟨h, rfl⟩
  | cons e effects ih =>
    obtain ⟨hsaw, hfeed⟩ := ih (e.run s) h
    obtain ⟨hsaw', hfeed'⟩ := run_feed e s hsaw
    exact ⟨hsaw', hfeed.trans hfeed'⟩

/-- A line without a feed word leaves the feed. -/
theorem feed_of_fold {h : FeedHistory K} {line : List UInt8} {s : LineState K}
    (hfold : h.fold line = .ok s) (hsaw : s.acc.sawFeed = false) : s.next.feed = h.state.feed := by
  unfold fold at hfold
  rw [words_of_applyWords hfold] at hfold
  obtain ⟨-, hall⟩ := applyWords_eq_ok_iff.mp hfold
  obtain ⟨guard, hrun⟩ := performAll_of_unused (unused_of_performAll hall).1 (.start h.state)
    fun _ _ => rfl
  obtain rfl := Except.ok.inj (hrun.symm.trans hall)
  exact (runAll_feed _ _ hsaw).2

/-! ## The histories of programs -/

omit [FloorRing K] in
theorem traced_powerOn : (powerOn : FeedHistory K).Traced := fun _ h => absurd h (lt_irrefl _)

/-- A line keeps track of the mode that the feed was programmed under. -/
theorem Traced.after {h : FeedHistory K} (ht : h.Traced) {line : List UInt8} {s : LineState K}
    (hfold : h.fold line = .ok s) : (h.after s).Traced := by
  intro hswitched hfeed
  unfold FeedHistory.after at hswitched hfeed ⊢
  dsimp only at hswitched hfeed ⊢
  cases hsaw : s.acc.sawFeed with
  | true => rfl
  | false =>
    rw [feed_of_fold hfold hsaw] at hfeed
    simp only [hsaw, Bool.not_false, Bool.true_and, Bool.or_eq_false_iff] at hswitched
    have hmode : s.next.feedMode = h.state.feedMode := by simpa using hswitched.2
    rw [hmode]
    exact ht hswitched.1 hfeed

/-- An accepted line is added to the history. -/
theorem parse_of_accepted {h : FeedHistory K} {line : List UInt8} {next : ModalState K}
    {command : Option (PlannerCommand K)} (hparse : parseLine h.state line = (.ok command, next)) :
    ∃ s, h.fold line = .ok s ∧ s.finish h.state = (.ok command, next) ∧
      h.parse line = h.after s := by
  unfold FeedHistory.parse
  rw [hparse]
  cases hfold : h.fold line with
  | error e =>
    unfold parseLine at hparse
    rw [show (LineState.start h.state).applyWords (Lexer.words line) = .error e from hfold] at hparse
    cases hparse
  | ok s => exact ⟨s, rfl, (parseLine_of_applyWords hfold).symm.trans hparse, rfl⟩

/-- A rejected line leaves the history. -/
theorem parse_of_rejected {h : FeedHistory K} {line : List UInt8} {e : GcodeError}
    (hparse : (parseLine h.state line).1 = .error e) : h.parse line = h := by
  unfold FeedHistory.parse
  rw [hparse]
  cases h.fold line <;> rfl

theorem Traced.parse {h : FeedHistory K} (ht : h.Traced) (line : List UInt8) :
    (h.parse line).Traced := by
  cases hparse : (parseLine h.state line).1 with
  | error e => rwa [parse_of_rejected hparse]
  | ok command =>
    obtain ⟨s, hfold, -, hafter⟩ := parse_of_accepted (Prod.ext hparse rfl)
    rw [hafter]
    exact ht.after hfold

theorem traced_ofLines (lines : List (List UInt8)) : (ofLines lines : FeedHistory K).Traced := by
  unfold ofLines
  generalize hstart : (powerOn : FeedHistory K) = h
  have ht : h.Traced := hstart ▸ traced_powerOn
  clear hstart
  induction lines generalizing h with
  | nil => exact ht
  | cons line lines ih => exact ih (h.parse line) (ht.parse line)

/-! ## The two meanings of the feed -/

/-- A line keeps the two meanings of the feed apart if and only if it does not ask for a speed
that was programmed before the mode was switched. -/
theorem isolates_iff {h : FeedHistory K} (ht : h.Traced) (line : List UInt8) :
    h.Isolates line ↔ h.Fed line := by
  constructor
  · intro hisolates s hfold hasks hmode hswitched
    have hstale : ¬h.Fresh s := by
      unfold Fresh
      rw [hmode]
      simp [hswitched]
    have hrefused := hisolates.refused s hfold hasks hstale
    rw [parseLine_of_applyWords hfold, finish_of_asksFeed hasks] at hrefused
    by_contra hfeed
    have hdefined : feedIsUndefined s.next s.acc.sawFeed true = false := by
      simp [feedIsUndefined, hmode, hfeed]
    rw [hdefined] at hrefused
    cases hrefused
  · intro hfed
    refine ⟨?_, ?_⟩
    · intro s hfold hasks hstale
      rw [parseLine_of_applyWords hfold, finish_of_asksFeed hasks, if_pos]
      unfold Fresh at hstale
      cases hmode : s.next.feedMode with
      | inverseTime =>
        have hsaw : s.acc.sawFeed = false := by simpa [hmode] using hstale
        simp [feedIsUndefined, hmode, hsaw]
      | unitsPerMin =>
        have hswitched : (h.after s).switched = true := by simpa [hmode] using hstale
        simp [feedIsUndefined, hfed s hfold hasks hmode hswitched]
    · intro command next use hparse huse
      obtain ⟨s, hfold, hfinish, hafter⟩ := parse_of_accepted hparse
      obtain ⟨hasks, rfl⟩ := asksFeed_of_finish hfinish huse
      rw [finish_of_asksFeed hasks] at hfinish
      have hdefined : feedIsUndefined s.next s.acc.sawFeed true = false := by
        cases hundefined : feedIsUndefined s.next s.acc.sawFeed true with
        | false => rfl
        | true => rw [hundefined, if_pos rfl] at hfinish; cases hfinish
      rw [hafter]
      simp only [feedIsUndefined, Bool.true_and, Bool.or_eq_false_iff, decide_eq_false_iff_not,
        not_le, Bool.and_eq_false_iff, Bool.not_eq_false'] at hdefined
      obtain ⟨hfeed, hmode⟩ := hdefined
      cases hfeedMode : s.next.feedMode with
      | inverseTime =>
        have hsaw : s.acc.sawFeed = true := by simpa [hfeedMode] using hmode
        simp [FeedHistory.after, hsaw, hfeedMode]
      | unitsPerMin =>
        have hfresh : (h.after s).switched = false := by
          by_contra hswitched
          have hle := hfed s hfold hasks hfeedMode (by simpa using hswitched)
          exact absurd hfeed (not_lt.mpr hle)
        have hsource := ht.after hfold hfresh hfeed
        rw [hsource]
        exact congrArg some hfeedMode

/-- **A program keeps the two meanings of the feed apart if and only if no line asks for a speed
that was programmed before the mode was switched.** -/
theorem program_isolates_iff (lines : List (List UInt8)) :
    (∀ before line after, lines = before ++ line :: after →
      (ofLines before : FeedHistory K).Isolates line) ↔
      ∀ before line after, lines = before ++ line :: after →
        (ofLines before : FeedHistory K).Fed line :=
  forall_congr' fun before => forall_congr' fun line => forall_congr' fun _ =>
    imp_congr_right fun _ => isolates_iff (traced_ofLines before) line

/-- `G93 G1 X1 F2` and `G94`. -/
def twoMoves : List (List UInt8) :=
  [['G'.toUInt8, '9'.toUInt8, '3'.toUInt8, 'G'.toUInt8, '1'.toUInt8, 'X'.toUInt8, '1'.toUInt8,
    'F'.toUInt8, '2'.toUInt8], ['G'.toUInt8, '9'.toUInt8, '4'.toUInt8]]

/-- `X5`. -/
def axisOnly : List UInt8 := ['X'.toUInt8, '5'.toUInt8]

/-- A move under `G94` is made at the feed that was programmed under `G93`. -/
theorem axisOnly_used :
    ((parseLine (ofLines twoMoves : FeedHistory ℚ).state axisOnly).1.toOption.join.bind
        PlannerCommand.feedUse = some (2, .unitsPerMin)) ∧
      ((ofLines twoMoves : FeedHistory ℚ).parse axisOnly).source = some .inverseTime := by
  decide +kernel

theorem not_feed_isolated :
    ¬∀ (before : List (List UInt8)) (line : List UInt8),
      (ofLines before : FeedHistory ℚ).Isolates line := by
  intro hall
  obtain ⟨huse, hsource⟩ := axisOnly_used
  obtain ⟨command, hcommand, huse⟩ := Option.bind_eq_some_iff.mp huse
  cases hparse : parseLine (ofLines twoMoves : FeedHistory ℚ).state axisOnly with
  | mk result next =>
    rw [hparse] at hcommand
    cases result with
    | error e => cases hcommand
    | ok made =>
      have hmade : made = some command := hcommand
      have h := (hall twoMoves axisOnly).used command next _ (hmade ▸ hparse) huse
      rw [hsource] at h
      cases h

end FeedHistory

end Galdr
