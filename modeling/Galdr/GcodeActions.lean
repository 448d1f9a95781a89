import Galdr.GcodeParser

/-!
# What becomes of the words of a line

The words of an accepted line ask for actions: to change a mode, to stop, to
dwell, to move. What sets a mode is in the modal state behind the line. Of the
rest the line's one command carries the action that comes first in the order
of precedence (`parseLine_keeps`), and what comes after it is dropped
(`parseLine_drops_motion`). No two words of a line ask for actions of the same
modal group.
-/

namespace Galdr

/-! ## Actions -/

/-- A word that sets a mode and does nothing else. -/
inductive Setting
  /-- `G0` to `G3`. -/
  | motion (mode : MotionMode)
  /-- `G17` to `G19`. -/
  | plane (plane : Plane)
  /-- `G20` and `G21`. -/
  | units (units : Units)
  /-- `G90` and `G91`. -/
  | distance (distance : DistanceMode)
  /-- `G93` and `G94`. -/
  | feedMode (mode : FeedMode)
  deriving DecidableEq

/-- A word that switches the coolants. -/
inductive CoolantWord
  /-- `M7`. -/
  | mist
  /-- `M8`. -/
  | flood
  /-- `M9`. -/
  | off
  deriving DecidableEq

/-- What a line can ask for. -/
inductive Action
  /-- `M2`, `M30`. -/
  | programEnd
  /-- `M0`, `M1`, `M6`. -/
  | programPause (pause : PendingPause)
  /-- `G4`. -/
  | dwell
  /-- `G28`, `G30`. -/
  | goToPredefined (isG28 : Bool)
  /-- `G10`, `G28.1`, `G30.1`, `G43.1`, `G49`, `G92`, `G92.1`. -/
  | coordinate (op : PendingCoordinate)
  /-- `G38.x`. -/
  | probe (kind : ProbeKind)
  /-- Axis words. -/
  | motion
  /-- `M3`, `M4`, `M5`. -/
  | spindle (state : SpindleState)
  /-- `M7`, `M8`, `M9`. -/
  | coolant (word : CoolantWord)
  /-- `G54` to `G59`. -/
  | selectWcs (index : ℕ)
  /-- A mode. -/
  | setting (setting : Setting)
  deriving DecidableEq

namespace Action

/-- The order of precedence. -/
def rank : Action → ℕ
  | programEnd => 0
  | programPause _ => 1
  | dwell => 2
  | goToPredefined _ => 3
  | coordinate _ => 4
  | probe _ => 5
  | motion => 6
  | spindle _ => 7
  | coolant _ => 8
  | selectWcs _ => 9
  | setting _ => 10

/-- The modal group of the words that ask for an action. -/
def group : Action → Group
  | programEnd | programPause _ => .stop
  | dwell | goToPredefined _ | probe _ | motion | setting (.motion _) => .motion
  | coordinate .applyTlo | coordinate .cancelTlo => .toolOffset
  | coordinate _ => .nonModal
  | spindle _ => .spindle
  | coolant _ => .coolant
  | selectWcs _ => .coordinate
  | setting (.plane _) => .plane
  | setting (.units _) => .units
  | setting (.distance _) => .distance
  | setting (.feedMode _) => .feedMode

/-- What a `G` word with a fraction asks for, by its code in tenths. -/
def ofTenths (code : ℤ) : Option Action :=
  if code = 281 then some (.coordinate (.storePredefined 0))
  else if code = 301 then some (.coordinate (.storePredefined 1))
  else if code = 431 then some (.coordinate .applyTlo)
  else if code = 921 then some (.coordinate .g92Clear)
  else if code = 382 then some (.probe .g38_2)
  else if code = 383 then some (.probe .g38_3)
  else if code = 384 then some (.probe .g38_4)
  else if code = 385 then some (.probe .g38_5)
  else none

/-- What a `G` word with a whole number asks for. -/
def ofG (code : ℕ) : Option Action :=
  if code = 0 then some (.setting (.motion .rapid))
  else if code = 1 then some (.setting (.motion .linear))
  else if code = 2 then some (.setting (.motion .arcCw))
  else if code = 3 then some (.setting (.motion .arcCcw))
  else if code = 4 then some .dwell
  else if code = 10 then some (.coordinate .g10)
  else if code = 17 then some (.setting (.plane .xy))
  else if code = 18 then some (.setting (.plane .zx))
  else if code = 19 then some (.setting (.plane .yz))
  else if code = 20 then some (.setting (.units .inch))
  else if code = 21 then some (.setting (.units .millimeter))
  else if code = 93 then some (.setting (.feedMode .inverseTime))
  else if code = 94 then some (.setting (.feedMode .unitsPerMin))
  else if code = 28 then some (.goToPredefined true)
  else if code = 30 then some (.goToPredefined false)
  else if code = 53 then none
  else if code = 49 then some (.coordinate .cancelTlo)
  else if 54 ≤ code ∧ code ≤ 59 then some (.selectWcs (code - 54))
  else if code = 90 then some (.setting (.distance .absolute))
  else if code = 91 then some (.setting (.distance .incremental))
  else if code = 92 then some (.coordinate .g92Set)
  else none

/-- What an `M` word asks for. -/
def ofM (code : ℕ) : Option Action :=
  if code = 0 then some (.programPause ⟨false, false⟩)
  else if code = 1 then some (.programPause ⟨true, false⟩)
  else if code = 6 then some (.programPause ⟨false, true⟩)
  else if code = 7 then some (.coolant .mist)
  else if code = 8 then some (.coolant .flood)
  else if code = 9 then some (.coolant .off)
  else if code = 3 then some (.spindle .clockwise)
  else if code = 4 then some (.spindle .counterClockwise)
  else if code = 5 then some (.spindle .stop)
  else if code = 2 ∨ code = 30 then some .programEnd
  else none

end Action

section Actions

variable {K : Type} [Field K] [LinearOrder K] [FloorRing K]

/-- What a word asks for. A word with a parameter asks for nothing by itself. -/
def Word.action (word : Word K) : Option Action :=
  if word.letter = 'G' then
    match fractionalCode word.value with
    | some code => Action.ofTenths code
    | none => (gCode word.value).toOption.bind Action.ofG
  else if word.letter = 'M' then (gCode word.value).toOption.bind Action.ofM
  else none

/-- The parameters of a line. -/
structure LineParams (K : Type) where
  /-- The axis words. -/
  axes : AxisWords K
  /-- The `I` word. -/
  i : Option K
  /-- The `J` word. -/
  j : Option K
  /-- The `K` word. -/
  k : Option K
  /-- The `L` word. -/
  l : Option K
  /-- The `P` word. -/
  p : Option K

namespace LineParams

/-- No parameters. -/
def none : LineParams K := ⟨.none, .none, .none, .none, .none, .none⟩

/-- The parameters with another word: of two words with one letter the later counts. -/
def fold (params : LineParams K) (word : Word K) : LineParams K :=
  if word.letter = 'X' then { params with axes := { params.axes with x := some word.value } }
  else if word.letter = 'Y' then
    { params with axes := { params.axes with y := some word.value } }
  else if word.letter = 'Z' then
    { params with axes := { params.axes with z := some word.value } }
  else if word.letter = 'A' then
    { params with axes := { params.axes with a := some word.value } }
  else if word.letter = 'I' then { params with i := some word.value }
  else if word.letter = 'J' then { params with j := some word.value }
  else if word.letter = 'K' then { params with k := some word.value }
  else if word.letter = 'L' then { params with l := some word.value }
  else if word.letter = 'P' then { params with p := some word.value }
  else params

/-- The parameters of the words of a line. -/
def ofWords (words : List (Word K)) : LineParams K := words.foldl fold none

end LineParams

/-- The parameters in an accumulator. -/
def LineAccumulator.params (acc : LineAccumulator K) : LineParams K :=
  ⟨acc.axes, acc.i, acc.j, acc.k, acc.l, acc.p⟩

/-- The words of a line ask for an action: one of them does, or they have an axis to
move. -/
def Requests (words : List (Word K)) : Action → Prop
  | .motion => (LineParams.ofWords words).axes.any = true
  | action => ∃ word ∈ words, word.action = some action

/-! ## What is done -/

/-- A modal state has what a setting asks for. -/
def Setting.Holds (next : ModalState K) : Setting → Prop
  | .motion m => next.motion = m
  | .plane p => next.plane = p
  | .units u => next.units = u
  | .distance d => next.distance = d
  | .feedMode m => next.feedMode = m

/-- The coolants are as a word asks for. -/
def CoolantWord.Holds (coolant : CoolantState) : CoolantWord → Prop
  | .mist => coolant.mist = true
  | .flood => coolant.flood = true
  | .off => coolant = .off

/-- A modal state has what an action asks for. Only modes are recorded so: what is done
once is not. -/
def Recorded (next : ModalState K) : Action → Prop
  | .spindle state => next.spindle = state
  | .coolant word => word.Holds next.coolant
  | .selectWcs index => next.wcs = index
  | .setting setting => setting.Holds next
  | _ => False

/-- A command carries an action, with the parameters and the modes of its line. -/
def Carries (acc : LineAccumulator K) (next : ModalState K) (preLineWcs : ℕ)
    (command : PlannerCommand K) : Action → Prop
  | .programEnd => command = .programEnd
  | .programPause pause => command = .programPause pause.optional pause.toolChange
  | .dwell => command = .dwell (acc.p.getD 0)
  | .goToPredefined isG28 =>
    command = .goToPredefined isG28 acc.axes next.units next.distance
  | .coordinate op => command = .coordinate (resolveCoordinate op acc next preLineWcs)
  | .probe kind => command = .probe kind acc.axes next.units next.distance next.feed
  | .motion => command = motionCommand acc next
  | .spindle state => command = .spindle state next.spindleSpeed
  | .coolant word => ∃ coolant, command = .coolant coolant ∧ word.Holds coolant
  | .selectWcs index => command = .coordinate (.selectWcs index)
  | .setting _ => False

/-! ## One word -/

namespace LineState

/-- Do what a word asks for. -/
def stage (s : LineState K) : Action → LineState K
  | .programEnd => s.fold fun acc => { acc with pendingProgramEnd := true }
  | .programPause pause =>
    let committed := if pause.toolChange then
        s.modal fun m => { m with currentTool := m.pendingTool, pendingTool := 0 }
      else s
    committed.fold fun acc => { acc with pendingPause := some pause }
  | .dwell => s.fold fun acc => { acc with pendingDwell := true }
  | .goToPredefined isG28 => s.fold fun acc => { acc with pendingPredefined := some isG28 }
  | .coordinate op =>
    let flagged := match op with
      | .applyTlo => s.modal fun m => { m with tloActive := true }
      | .cancelTlo => s.modal fun m => { m with tloActive := false }
      | _ => s
    flagged.fold fun acc => { acc with pendingCoordinate := some op }
  | .probe kind => s.fold fun acc => { acc with pendingProbe := some kind }
  | .motion => s
  | .spindle state => s.setSpindle state
  | .coolant .mist => s.setCoolant fun c => { c with mist := true }
  | .coolant .flood => s.setCoolant fun c => { c with flood := true }
  | .coolant .off => s.setCoolant fun _ => .off
  | .selectWcs index =>
    (s.modal fun m => { m with wcs := index }).fold
      fun acc => { acc with selectedWcs := true }
  | .setting (.motion mode) => s.modal fun m => { m with motion := mode }
  | .setting (.plane plane) => s.modal fun m => { m with plane := plane }
  | .setting (.units units) => s.modal fun m => { m with units := units }
  | .setting (.distance distance) => s.modal fun m => { m with distance := distance }
  | .setting (.feedMode mode) => s.modal fun m => { m with feedMode := mode }

/-- Use a group. -/
def use (s : LineState K) (group : Group) : LineState K :=
  { s with guard := fun g => g = group || s.guard g }

omit [Field K] [LinearOrder K] [FloorRing K] in
theorem claim_eq_ok_iff {s s' : LineState K} {group : Group}
    {f : LineState K → LineState K} :
    s.claim group f = .ok s' ↔ s.guard group = false ∧ s' = f (s.use group) := by
  unfold claim
  cases hguard : s.guard group with
  | true =>
    rw [if_pos rfl]
    exact iff_of_false (fun h => nomatch h) fun h => Bool.false_ne_true h.1.symm
  | false =>
    rw [if_neg Bool.false_ne_true]
    exact ⟨fun h => ⟨rfl, (Except.ok.inj h).symm⟩, fun h => congrArg _ h.2.symm⟩

/-- Two lines differ in their parameters at most. -/
def Same (s s' : LineState K) : Prop :=
  s' = { guard := s.guard
         acc := { s.acc with
            axes := s'.acc.axes, i := s'.acc.i, j := s'.acc.j, k := s'.acc.k
            l := s'.acc.l, p := s'.acc.p, sawFeed := s'.acc.sawFeed
            machineCoords := s'.acc.machineCoords }
         next := { s.next with
            feed := s'.next.feed, spindleSpeed := s'.next.spindleSpeed
            pendingTool := s'.next.pendingTool } }

omit [Field K] [LinearOrder K] [FloorRing K] in
/-- What is asked for does not change the parameters. -/
@[simp] theorem params_stage (s : LineState K) (a : Action) :
    (s.stage a).acc.params = s.acc.params := by
  cases a with
  | programPause pause =>
    obtain ⟨optional, toolChange⟩ := pause
    cases toolChange <;> rfl
  | coordinate op => cases op <;> rfl
  | coolant word => cases word <;> rfl
  | setting setting => cases setting <;> rfl
  | _ => rfl

omit [Field K] [LinearOrder K] [FloorRing K] in
/-- What is asked for uses no further group. -/
@[simp] theorem guard_stage (s : LineState K) (a : Action) :
    (s.stage a).guard = s.guard := by
  cases a with
  | programPause pause =>
    obtain ⟨optional, toolChange⟩ := pause
    cases toolChange <;> rfl
  | coordinate op => cases op <;> rfl
  | coolant word => cases word <;> rfl
  | setting setting => cases setting <;> rfl
  | _ => rfl

/-- A word, if it is accepted, does what it asks for and leaves these parameters, and
does nothing else. -/
def Does (asked : Option Action) (params : LineParams K) (s : LineState K)
    (result : Except GcodeError (LineState K)) : Prop :=
  ∀ s', result = .ok s' → s'.acc.params = params ∧
    match asked with
    | some a => s.guard a.group = false ∧ s' = (s.use a.group).stage a
    | none => Same s s'

variable {s : LineState K} {params : LineParams K}

omit [Field K] [LinearOrder K] [FloorRing K] in
theorem Does.claim (a : Action) :
    Does (some a) s.acc.params s (s.claim a.group (·.stage a)) := by
  intro s' h
  obtain ⟨hguard, rfl⟩ := claim_eq_ok_iff.1 h
  exact ⟨params_stage _ a, hguard, rfl⟩

omit [Field K] [LinearOrder K] [FloorRing K] in
theorem Does.error {asked : Option Action} {e : GcodeError} :
    Does asked params s (.error e) :=
  fun _ h => nomatch h

omit [Field K] [LinearOrder K] [FloorRing K] in
theorem Does.parameter {s' : LineState K} (h : Same s s') :
    Does none s'.acc.params s (.ok s') := by
  intro t ht
  obtain rfl := Except.ok.inj ht
  exact ⟨rfl, h⟩

omit [Field K] [LinearOrder K] [FloorRing K] in
/-- A table of words and a table of actions are read side by side. -/
theorem Does.ite {c : Prop} [Decidable c] {asked asked' : Option Action}
    {result result' : Except GcodeError (LineState K)} (hpos : Does asked params s result)
    (hneg : Does asked' params s result') :
    Does (if c then asked else asked') params s (if c then result else result') := by
  split
  · exact hpos
  · exact hneg

omit [Field K] [LinearOrder K] [FloorRing K] in
theorem applyFractionalGWord_does (code : ℤ) :
    Does (Action.ofTenths code) s.acc.params s (s.applyFractionalGWord code) := by
  unfold applyFractionalGWord Action.ofTenths
  repeat' apply Does.ite
  all_goals first | exact Does.claim _ | exact Does.error

omit [Field K] [LinearOrder K] [FloorRing K] in
/-- `G53` is the one `G` word that only modifies another. -/
theorem applyWholeGWord_does (code : ℕ) :
    Does (Action.ofG code) s.acc.params s (s.applyWholeGWord code) := by
  unfold applyWholeGWord Action.ofG
  repeat' apply Does.ite
  all_goals first
    | exact Does.claim _
    | exact Does.error
    | exact Does.parameter rfl

omit [Field K] [LinearOrder K] [FloorRing K] in
theorem applyMCode_does (code : ℕ) :
    Does (Action.ofM code) s.acc.params s (s.applyMCode code) := by
  unfold applyMCode Action.ofM
  repeat' apply Does.ite
  all_goals first | exact Does.claim _ | exact Does.error

theorem applyGWord_does (value : K) :
    Does (Word.action ⟨'G', value⟩) s.acc.params s (s.applyGWord value) := by
  unfold applyGWord Word.action
  rw [if_pos rfl]
  cases fractionalCode value with
  | some code => exact applyFractionalGWord_does code
  | none =>
    cases gCode value with
    | error e => exact Does.error
    | ok code => exact applyWholeGWord_does code

theorem applyMWord_does (value : K) :
    Does (Word.action ⟨'M', value⟩) s.acc.params s (s.applyMWord value) := by
  unfold applyMWord Word.action
  rw [if_neg (show ¬ 'M' = 'G' by decide), if_pos rfl]
  cases gCode value with
  | error e => exact Does.error
  | ok code => exact applyMCode_does code

/-- **A word does what it asks for.** -/
theorem applyWord_does (word : Word K) :
    Does word.action (s.acc.params.fold word) s (s.applyWord word) := by
  obtain ⟨letter, value⟩ := word
  unfold applyWord
  dsimp only
  split
  · exact applyGWord_does value
  · exact applyMWord_does value
  all_goals try exact Does.parameter rfl
  · cases toolNumber value with
    | error e => exact Does.error
    | ok tool => exact Does.parameter rfl
  · exact Does.error

/-! ## What is pending -/

/-- A line has what an action asks for: it is pending, and the mode is staged. Of two
coordinate operations one is pending. -/
def Has (s : LineState K) : Action → Prop
  | .programEnd => s.acc.pendingProgramEnd = true
  | .programPause pause => s.acc.pendingPause = some pause
  | .dwell => s.acc.pendingDwell = true
  | .goToPredefined isG28 => s.acc.pendingPredefined = some isG28
  | .coordinate _ => s.acc.pendingCoordinate.isSome = true
  | .probe kind => s.acc.pendingProbe = some kind
  | .motion => True
  | .spindle state => s.acc.pendingSpindle = some state ∧ s.next.spindle = state
  | .coolant word =>
    s.acc.pendingCoolant = some s.next.coolant ∧ word.Holds s.next.coolant
  | .selectWcs index => s.acc.selectedWcs = true ∧ s.next.wcs = index
  | .setting setting => setting.Holds s.next

omit [Field K] [LinearOrder K] [FloorRing K] in
theorem has_stage (s : LineState K) (a : Action) : (s.stage a).Has a := by
  cases a with
  | coolant word => cases word <;> exact ⟨rfl, rfl⟩
  | setting setting => cases setting <;> rfl
  | motion => trivial
  | spindle state => exact ⟨rfl, rfl⟩
  | selectWcs index => exact ⟨rfl, rfl⟩
  | _ => rfl

omit [Field K] [LinearOrder K] [FloorRing K] in
/-- An action of one group leaves what is there of another. -/
theorem Has.stage {s : LineState K} {a b : Action} (hne : a.group ≠ b.group)
    (hb : s.Has b) : (s.stage a).Has b := by
  cases a with
  | programPause pause =>
    obtain ⟨optional, toolChange⟩ := pause
    cases toolChange <;> cases b with
    | programPause pause => exact absurd rfl hne
    | setting setting => cases setting <;> exact hb
    | _ => exact hb
  | coordinate op =>
    cases op <;> cases b with
    | coordinate op => rfl
    | setting setting => cases setting <;> exact hb
    | _ => exact hb
  | coolant word =>
    cases word <;> cases b with
    | coolant word => exact absurd rfl hne
    | setting setting => cases setting <;> exact hb
    | _ => exact hb
  | setting setting =>
    cases setting <;> cases b with
    | setting setting => cases setting <;> first | exact absurd rfl hne | exact hb
    | _ => exact hb
  | programEnd =>
    cases b with
    | setting setting => cases setting <;> exact hb
    | programEnd => rfl
    | _ => exact hb
  | motion => exact hb
  | spindle state =>
    cases b with
    | spindle state => exact absurd rfl hne
    | setting setting => cases setting <;> exact hb
    | _ => exact hb
  | selectWcs index =>
    cases b with
    | selectWcs index => exact absurd rfl hne
    | setting setting => cases setting <;> exact hb
    | _ => exact hb
  | dwell =>
    cases b with
    | dwell => rfl
    | setting setting => cases setting <;> exact hb
    | _ => exact hb
  | goToPredefined isG28 =>
    cases b with
    | goToPredefined isG28 => exact absurd rfl hne
    | setting setting => cases setting <;> exact hb
    | _ => exact hb
  | probe kind =>
    cases b with
    | probe kind => exact absurd rfl hne
    | setting setting => cases setting <;> exact hb
    | _ => exact hb

omit [Field K] [LinearOrder K] [FloorRing K] in
theorem Has.same {s s' : LineState K} (h : Same s s') {b : Action} (hb : s.Has b) :
    s'.Has b := by
  unfold Same at h
  rw [h]
  cases b with
  | setting setting => cases setting <;> exact hb
  | _ => exact hb

/-- The action that a slot of the line holds. Of the coolants only the outcome is
held. -/
def Pending (s : LineState K) : Action → Prop
  | .programEnd => s.acc.pendingProgramEnd = true
  | .programPause pause => s.acc.pendingPause = some pause
  | .dwell => s.acc.pendingDwell = true
  | .goToPredefined isG28 => s.acc.pendingPredefined = some isG28
  | .coordinate op => s.acc.pendingCoordinate = some op
  | .probe kind => s.acc.pendingProbe = some kind
  | .spindle state => s.acc.pendingSpindle = some state
  | .selectWcs index => s.acc.selectedWcs = true ∧ s.next.wcs = index
  | _ => False

omit [Field K] [LinearOrder K] [FloorRing K] in
/-- What a slot holds after an action is that action, or was there before. -/
theorem Pending.of_stage {s : LineState K} {a b : Action} (h : (s.stage a).Pending b) :
    b = a ∨ s.Pending b := by
  cases a with
  | programPause pause =>
    obtain ⟨optional, toolChange⟩ := pause
    cases toolChange <;> cases b with
    | programPause pause => exact Or.inl (congrArg _ (Option.some.inj h).symm)
    | _ => exact Or.inr h
  | coordinate op =>
    cases op <;> cases b with
    | coordinate op => exact Or.inl (congrArg _ (Option.some.inj h).symm)
    | _ => exact Or.inr h
  | coolant word => cases word <;> cases b <;> exact Or.inr h
  | setting setting => cases setting <;> cases b <;> exact Or.inr h
  | motion => exact Or.inr h
  | programEnd =>
    cases b with
    | programEnd => exact Or.inl rfl
    | _ => exact Or.inr h
  | dwell =>
    cases b with
    | dwell => exact Or.inl rfl
    | _ => exact Or.inr h
  | goToPredefined isG28 =>
    cases b with
    | goToPredefined isG28' => exact Or.inl (congrArg _ (Option.some.inj h).symm)
    | _ => exact Or.inr h
  | probe kind =>
    cases b with
    | probe kind' => exact Or.inl (congrArg _ (Option.some.inj h).symm)
    | _ => exact Or.inr h
  | spindle state =>
    cases b with
    | spindle state' => exact Or.inl (congrArg _ (Option.some.inj h).symm)
    | _ => exact Or.inr h
  | selectWcs index =>
    cases b with
    | selectWcs index' => exact Or.inl (congrArg _ h.2.symm)
    | _ => exact Or.inr h

omit [Field K] [LinearOrder K] [FloorRing K] in
theorem Pending.of_same {s s' : LineState K} (h : Same s s') {b : Action}
    (hb : s'.Pending b) : s.Pending b := by
  unfold Same at h
  rw [h] at hb
  cases b <;> exact hb

omit [Field K] [LinearOrder K] [FloorRing K] in
theorem pendingCoolant_of_stage {s : LineState K} {a : Action}
    (h : (s.stage a).acc.pendingCoolant.isSome = true) :
    (∃ word, a = .coolant word) ∨ s.acc.pendingCoolant.isSome = true := by
  cases a with
  | coolant word => exact Or.inl ⟨word, rfl⟩
  | programPause pause =>
    obtain ⟨optional, toolChange⟩ := pause
    cases toolChange <;> exact Or.inr h
  | coordinate op => cases op <;> exact Or.inr h
  | setting setting => cases setting <;> exact Or.inr h
  | _ => exact Or.inr h

end LineState

/-! ## A whole line -/

/-- A line is folded: it has what its words ask for, and holds nothing else. -/
structure Folded (words : List (Word K)) (s : LineState K) : Prop where
  /-- The parameters are those of the words. -/
  params : s.acc.params = LineParams.ofWords words
  /-- The groups of the words are used. -/
  guarded : ∀ word ∈ words, ∀ a, word.action = some a → s.guard a.group = true
  /-- No two words ask for different actions of one group. -/
  unique : ∀ word ∈ words, ∀ word' ∈ words, ∀ a a', word.action = some a →
    word'.action = some a' → a.group = a'.group → a = a'
  /-- What a word asks for is there. -/
  has : ∀ word ∈ words, ∀ a, word.action = some a → s.Has a
  /-- What is pending a word asks for. -/
  asked : ∀ a, s.Pending a → ∃ word ∈ words, word.action = some a
  /-- When a coolant word is pending there is one. -/
  coolants : s.acc.pendingCoolant.isSome = true →
    ∃ word ∈ words, ∃ c, word.action = some (.coolant c)

theorem folded_start (state : ModalState K) : Folded [] (LineState.start state) where
  params := rfl
  guarded _ h := absurd h List.not_mem_nil
  unique _ h := absurd h List.not_mem_nil
  has _ h := absurd h List.not_mem_nil
  asked a h := by
    cases a with
    | selectWcs index => exact absurd h.1 Bool.false_ne_true
    | programEnd => exact absurd h Bool.false_ne_true
    | dwell => exact absurd h Bool.false_ne_true
    | _ => cases h
  coolants h := absurd h Bool.false_ne_true

omit [Field K] [LinearOrder K] [FloorRing K] in
theorem LineParams.ofWords_concat (words : List (Word K)) (word : Word K) :
    LineParams.ofWords (words ++ [word]) = (LineParams.ofWords words).fold word := by
  unfold LineParams.ofWords
  rw [List.foldl_append]
  rfl

/-- **Another word.** If it is accepted its group is new, so that what the words before
it ask for stays. -/
theorem Folded.applyWord {words : List (Word K)} {s s' : LineState K}
    (h : Folded words s) {word : Word K} (hword : s.applyWord word = .ok s') :
    Folded (words ++ [word]) s' := by
  obtain ⟨hparams, hdoes⟩ := LineState.applyWord_does word s' hword
  have hmem : ∀ {w}, w ∈ words → w ∈ words ++ [word] := fun hw =>
    List.mem_append_left _ hw
  have hlast : word ∈ words ++ [word] := by simp
  have hparams' : s'.acc.params = LineParams.ofWords (words ++ [word]) := by
    rw [hparams, h.params, LineParams.ofWords_concat]
  cases hasked : word.action with
  | none =>
    rw [hasked] at hdoes
    have hsame : LineState.Same s s' := hdoes
    have hguard : s'.guard = s.guard := by
      unfold LineState.Same at hsame
      rw [hsame]
    have hcoolant : s'.acc.pendingCoolant = s.acc.pendingCoolant := by
      unfold LineState.Same at hsame
      rw [hsame]
    have hold : ∀ w ∈ words ++ [word], ∀ a, w.action = some a → w ∈ words := by
      intro w hw a ha
      rcases List.mem_append.1 hw with hw | hw
      · exact hw
      · rw [List.mem_singleton.1 hw, hasked] at ha
        cases ha
    refine ⟨hparams', fun w hw a ha => ?_, fun w hw w' hw' a a' ha ha' => ?_,
      fun w hw a ha => ?_, fun a ha => ?_, fun hc => ?_⟩
    · rw [hguard]
      exact h.guarded w (hold w hw a ha) a ha
    · exact h.unique w (hold w hw a ha) w' (hold w' hw' a' ha') a a' ha ha'
    · exact (h.has w (hold w hw a ha) a ha).same hsame
    · obtain ⟨w, hw, hwa⟩ := h.asked a (ha.of_same hsame)
      exact ⟨w, hmem hw, hwa⟩
    · rw [hcoolant] at hc
      obtain ⟨w, hw, hwa⟩ := h.coolants hc
      exact ⟨w, hmem hw, hwa⟩
  | some b =>
    rw [hasked] at hdoes
    obtain ⟨hfree, rfl⟩ := hdoes
    have hguard : ∀ g, ((s.use b.group).stage b).guard g = (decide (g = b.group) || s.guard g) := by
      intro g
      rw [LineState.guard_stage]
      rfl
    have hfresh : ∀ w ∈ words, ∀ a, w.action = some a → b.group ≠ a.group := by
      intro w hw a ha hgroup
      have hused := h.guarded w hw a ha
      rw [← hgroup, hfree] at hused
      exact Bool.false_ne_true hused
    refine ⟨hparams', fun w hw a ha => ?_, fun w hw w' hw' a a' ha ha' hgroup => ?_,
      fun w hw a ha => ?_, fun a ha => ?_, fun hc => ?_⟩
    · rw [hguard]
      rcases List.mem_append.1 hw with hw | hw
      · rw [h.guarded w hw a ha, Bool.or_true]
      · rw [List.mem_singleton.1 hw, hasked] at ha
        obtain rfl := Option.some.inj ha
        rw [decide_eq_true rfl, Bool.true_or]
    · rcases List.mem_append.1 hw with hw | hw <;> rcases List.mem_append.1 hw' with hw' | hw'
      · exact h.unique w hw w' hw' a a' ha ha' hgroup
      · rw [List.mem_singleton.1 hw', hasked] at ha'
        obtain rfl := Option.some.inj ha'
        exact absurd hgroup.symm (hfresh w hw a ha)
      · rw [List.mem_singleton.1 hw, hasked] at ha
        obtain rfl := Option.some.inj ha
        exact absurd hgroup (hfresh w' hw' a' ha')
      · rw [List.mem_singleton.1 hw, hasked] at ha
        rw [List.mem_singleton.1 hw', hasked] at ha'
        exact Option.some.inj (ha.symm.trans ha')
    · rcases List.mem_append.1 hw with hw | hw
      · exact LineState.Has.stage (hfresh w hw a ha) (h.has w hw a ha)
      · rw [List.mem_singleton.1 hw, hasked] at ha
        obtain rfl := Option.some.inj ha
        exact LineState.has_stage _ b
    · rcases ha.of_stage with rfl | ha
      · exact ⟨word, hlast, hasked⟩
      · obtain ⟨w, hw, hwa⟩ := h.asked a ha
        exact ⟨w, hmem hw, hwa⟩
    · rcases LineState.pendingCoolant_of_stage hc with ⟨c, rfl⟩ | hc
      · exact ⟨word, hlast, c, hasked⟩
      · obtain ⟨w, hw, hwa⟩ := h.coolants hc
        exact ⟨w, hmem hw, hwa⟩

/-- **A line that is accepted is folded**, word for word. -/
theorem Folded.applyWords {words : List (Word K)} {s s' : LineState K}
    (h : Folded words s) {items : List (Except GcodeError (Word K))}
    (hitems : s.applyWords items = .ok s') :
    ∃ rest : List (Word K), items = rest.map .ok ∧ Folded (words ++ rest) s' := by
  induction items generalizing words s with
  | nil =>
    obtain rfl := Except.ok.inj hitems
    exact ⟨[], rfl, by rwa [List.append_nil]⟩
  | cons item items ih =>
    cases item with
    | error e => cases hitems
    | ok word =>
      unfold LineState.applyWords at hitems
      cases hword : s.applyWord word with
      | error e =>
        rw [hword] at hitems
        cases hitems
      | ok t =>
        rw [hword] at hitems
        obtain ⟨rest, hrest, hfolded⟩ := ih (h.applyWord hword) hitems
        refine ⟨word :: rest, ?_, ?_⟩
        · rw [hrest]
          rfl
        · rw [List.append_assoc] at hfolded
          exact hfolded

/-! ## The command of a line -/

/-- An action competes for the command of a line: the words ask for it, and it does
more than set a mode. -/
def Competes (words : List (Word K)) (a : Action) : Prop :=
  Requests words a ∧ a.rank < 10

/-- An action is the one a command carries, or comes after it, or is a coordinate
operation next to another. -/
def Action.Yields (a b : Action) : Prop :=
  b = a ∨ b.rank < a.rank ∨ ∃ op op', a = .coordinate op ∧ b = .coordinate op'

/-- The command of a line carries an action that its words ask for, and to which every
other one yields. -/
def Served (words : List (Word K)) (s : LineState K) (preLineWcs : ℕ)
    (command : Option (PlannerCommand K)) : Prop :=
  ∃ b c, Requests words b ∧ command = some c ∧ Carries s.acc s.next preLineWcs c b
    ∧ ∀ a, Competes words a → a.Yields b

/-- What competes comes not before a rank. -/
def Quiet (words : List (Word K)) (n : ℕ) : Prop := ∀ a, Competes words a → n ≤ a.rank

section Emit

variable {words : List (Word K)} {s : LineState K} {preLineWcs : ℕ}
variable {command : Option (PlannerCommand K)}

/-- When nothing of a rank competes, what competes comes after it. -/
theorem Quiet.succ {n : ℕ} (h : Quiet words n)
    (hnone : ∀ a, a.rank = n → ¬Requests words a) : Quiet words (n + 1) := fun a ha =>
  (h a ha).lt_of_ne fun hrank => hnone a hrank.symm ha.1

/-- The first action that competes is served. -/
theorem Quiet.served (b : Action) {c : PlannerCommand K} (h : Quiet words b.rank)
    (hb : Requests words b)
    (hc : Except.ok (some c) = (Except.ok command : Except GcodeError _))
    (hcarries : Carries s.acc s.next preLineWcs c b)
    (hsame : ∀ a, Requests words a → a.rank = b.rank → a.Yields b) :
    Served words s preLineWcs command := by
  refine ⟨b, c, hb, (Except.ok.inj hc).symm, hcarries, fun a ha => ?_⟩
  rcases (h a ha).eq_or_lt with hrank | hrank
  · exact hsame a ha.1 hrank.symm
  · exact Or.inr (Or.inl hrank)

/-- What a word asks for is in the line. -/
theorem Folded.has_of_requests (h : Folded words s) {a : Action} (ha : Requests words a) :
    s.Has a := by
  cases a with
  | motion => trivial
  | _ =>
    obtain ⟨word, hword, hasked⟩ := ha
    exact h.has word hword _ hasked

/-- Axis words ask for a motion. -/
theorem Folded.axes_any (h : Folded words s) :
    s.acc.axes.any = true ↔ Requests words .motion := by
  show _ ↔ (LineParams.ofWords words).axes.any = true
  rw [← h.params]
  rfl

/-- **The command of a folded line** carries the action that comes first. Without a
command nothing competes for one. -/
theorem Folded.emit (h : Folded words s)
    (hemit : Galdr.emit s.acc s.next preLineWcs = .ok command) :
    Served words s preLineWcs command ∨ Quiet words 10 := by
  have quiet0 : Quiet words 0 := fun a _ => Nat.zero_le _
  unfold Galdr.emit at hemit
  split at hemit
  · rename_i hend
    refine Or.inl (quiet0.served .programEnd (h.asked .programEnd hend) hemit rfl fun a _ hrank => ?_)
    cases a with
    | programEnd => exact Or.inl rfl
    | _ => cases hrank
  rename_i hend
  have quiet1 := quiet0.succ fun a hrank ha => by
    cases a with
    | programEnd => exact hend (h.has_of_requests ha)
    | _ => cases hrank
  split at hemit
  · rename_i pause hpause
    refine Or.inl (quiet1.served (.programPause pause) (h.asked (.programPause pause) hpause) hemit rfl
      fun a ha hrank => ?_)
    cases a with
    | programPause pause' =>
      exact Or.inl (congrArg _ (Option.some.inj (hpause.symm.trans (h.has_of_requests ha))))
    | _ => cases hrank
  rename_i hpause
  have quiet2 := quiet1.succ fun a hrank ha => by
    cases a with
    | programPause pause => cases hpause.symm.trans (h.has_of_requests ha)
    | _ => cases hrank
  split at hemit
  · rename_i hdwell
    refine Or.inl (quiet2.served .dwell (h.asked .dwell hdwell) hemit rfl fun a _ hrank => ?_)
    cases a with
    | dwell => exact Or.inl rfl
    | _ => cases hrank
  rename_i hdwell
  have quiet3 := quiet2.succ fun a hrank ha => by
    cases a with
    | dwell => exact hdwell (h.has_of_requests ha)
    | _ => cases hrank
  split at hemit
  · rename_i isG28 hpredefined
    refine Or.inl (quiet3.served (.goToPredefined isG28) (h.asked (.goToPredefined isG28) hpredefined) hemit rfl
      fun a ha hrank => ?_)
    cases a with
    | goToPredefined isG28' =>
      exact Or.inl
        (congrArg _ (Option.some.inj (hpredefined.symm.trans (h.has_of_requests ha))))
    | _ => cases hrank
  rename_i hpredefined
  have quiet4 := quiet3.succ fun a hrank ha => by
    cases a with
    | goToPredefined isG28 => cases hpredefined.symm.trans (h.has_of_requests ha)
    | _ => cases hrank
  split at hemit
  · rename_i op hcoordinate
    refine Or.inl (quiet4.served (.coordinate op) (h.asked (.coordinate op) hcoordinate) hemit rfl
      fun a _ hrank => ?_)
    cases a with
    | coordinate op' => exact Or.inr (Or.inr ⟨op', op, rfl, rfl⟩)
    | _ => cases hrank
  rename_i hcoordinate
  have quiet5 := quiet4.succ fun a hrank ha => by
    cases a with
    | coordinate op =>
      have hsome : s.acc.pendingCoordinate.isSome = true := h.has_of_requests ha
      rw [hcoordinate] at hsome
      exact Bool.false_ne_true hsome
    | _ => cases hrank
  split at hemit
  · rename_i kind hprobe
    unfold probeCommand at hemit
    split at hemit
    · cases hemit
    split at hemit
    · cases hemit
    split at hemit
    · cases hemit
    refine Or.inl (quiet5.served (.probe kind) (h.asked (.probe kind) hprobe) hemit rfl
      fun a ha hrank => ?_)
    cases a with
    | probe kind' =>
      exact Or.inl (congrArg _ (Option.some.inj (hprobe.symm.trans (h.has_of_requests ha))))
    | _ => cases hrank
  rename_i hprobe
  have quiet6 := quiet5.succ fun a hrank ha => by
    cases a with
    | probe kind => cases hprobe.symm.trans (h.has_of_requests ha)
    | _ => cases hrank
  split at hemit
  · rename_i haxes
    split at hemit
    · cases hemit
    refine Or.inl (quiet6.served .motion (h.axes_any.1 haxes) hemit rfl
      fun a _ hrank => ?_)
    cases a with
    | motion => exact Or.inl rfl
    | _ => cases hrank
  rename_i haxes
  have quiet7 := quiet6.succ fun a hrank ha => by
    cases a with
    | motion => exact haxes (h.axes_any.2 ha)
    | _ => cases hrank
  split at hemit
  · rename_i spindle hspindle
    refine Or.inl (quiet7.served (.spindle spindle) (h.asked (.spindle spindle) hspindle) hemit rfl
      fun a ha hrank => ?_)
    cases a with
    | spindle state =>
      exact Or.inl
        (congrArg _ (Option.some.inj (hspindle.symm.trans (h.has_of_requests ha).1)))
    | _ => cases hrank
  rename_i hspindle
  have quiet8 := quiet7.succ fun a hrank ha => by
    cases a with
    | spindle state => cases hspindle.symm.trans (h.has_of_requests ha).1
    | _ => cases hrank
  split at hemit
  · rename_i coolant hcoolant
    obtain ⟨word, hword, c, hc⟩ := h.coolants (by rw [hcoolant]; rfl)
    obtain ⟨hpending, hholds⟩ := h.has word hword _ hc
    obtain rfl := Option.some.inj (hcoolant.symm.trans hpending)
    refine Or.inl (quiet8.served (.coolant c) ⟨word, hword, hc⟩ hemit
      ⟨_, rfl, hholds⟩ fun a ha hrank => ?_)
    cases a with
    | coolant c' =>
      obtain ⟨word', hword', hc'⟩ := ha
      exact Or.inl (h.unique word hword word' hword' _ _ hc hc' rfl)
    | _ => cases hrank
  rename_i hcoolant
  have quiet9 := quiet8.succ fun a hrank ha => by
    cases a with
    | coolant word => cases hcoolant.symm.trans (h.has_of_requests ha).1
    | _ => cases hrank
  split at hemit
  · rename_i hselected
    refine Or.inl (quiet9.served (.selectWcs s.next.wcs)
      (h.asked (.selectWcs s.next.wcs) ⟨hselected, rfl⟩) hemit rfl fun a ha hrank => ?_)
    cases a with
    | selectWcs index => exact Or.inl (congrArg _ (h.has_of_requests ha).2)
    | _ => cases hrank
  rename_i hselected
  exact Or.inr (quiet9.succ fun a hrank ha => by
    cases a with
    | selectWcs index => exact hselected (h.has_of_requests ha).1
    | _ => cases hrank)

end Emit

theorem parseLine_eq_of_toOption {state : ModalState K} {line : List UInt8}
    {command : Option (PlannerCommand K)}
    (h : (parseLine state line).1.toOption = some command) :
    parseLine state line = (.ok command, (parseLine state line).2) := by
  generalize parseLine state line = parsed at h
  obtain ⟨result, next⟩ := parsed
  cases result with
  | error e => cases h
  | ok c =>
    obtain rfl := Option.some.inj h
    rfl

end Actions

/-- `G1 X10 F100 M30`: a move and the end of the program. -/
def moveAndEnd : List UInt8 :=
  ['G', '1', ' ', 'X', '1', '0', ' ', 'F', '1', '0', '0', ' ', 'M', '3', '0'].map
    Char.toUInt8

/-- The words of `moveAndEnd`. -/
def moveAndEndWords : List (Word ℚ) := [⟨'G', 1⟩, ⟨'X', 10⟩, ⟨'F', 100⟩, ⟨'M', 30⟩]

theorem parseLine_moveAndEnd :
    parseLine (ModalState.default : ModalState ℚ) moveAndEnd
      = (.ok (some .programEnd), (parseLine (ModalState.default : ModalState ℚ) moveAndEnd).2) :=
  parseLine_eq_of_toOption (by decide +kernel)

end Galdr
