import Galdr.HomingEnvelope
import Galdr.ProbeSequences

/-!
# What a probe sequence leaves behind

The machine takes the lines of a probe sequence one after another. An error or an alarm locks it,
and it passes over the lines that come while it is locked, the one that would bring back absolute
positions among them. Which lines it heeds is known from what becomes of each (`Heeds`), and from
that when a sequence is safe (`modalSafe_iff`).
-/

namespace Galdr.Host

open Eitri Text

/-! ## The machine -/

/-- What comes with a line. -/
structure Stimulus where
  /-- The operator takes the lock off before the line. -/
  unlocked : Bool
  /-- The probe makes no contact, or the move would leave the travel. -/
  fails : Bool
  /-- An alarm strikes while the line is carried out. -/
  alarmed : Bool
  deriving DecidableEq

/-- A move that would leave the travel is not begun. -/
def refusable : PlannerCommand ℚ → Bool
  | .move .. | .arc .. | .goToPredefined .. => true
  | _ => false

/-- A failure locks the machine. A probe that makes no contact does if it is of the alarming
kind. -/
def failureLocks : PlannerCommand ℚ → Bool
  | .probe kind .. => kind.alarmOnFail
  | command => refusable command

/-- The part of the machine that takes lines. -/
structure Consumer where
  /-- The modes. -/
  parser : ModalState ℚ
  /-- An error or an alarm has locked it. -/
  locked : Bool

/-- Take a line, and carry out what it asks for. A line is passed over while the machine is locked;
one that is refused, and one that ends in an alarm, lock it. -/
def Consumer.take (c : Consumer) (line : List UInt8) (σ : Stimulus) :
    Option (PlannerCommand ℚ) × Consumer :=
  if c.locked && !σ.unlocked then (none, c)
  else match parseLine c.parser line with
    | (.error _, _) => (none, ⟨c.parser, true⟩)
    | (.ok none, next) => (none, ⟨next, σ.alarmed⟩)
    | (.ok (some command), next) =>
      (if σ.fails && refusable command then none else some command,
        ⟨next, σ.alarmed || (σ.fails && failureLocks command)⟩)

section Take

variable {c : Consumer} {line : HostLine} {σ : Stimulus}

theorem Consumer.take_of_locked (h : c.locked = true) (hσ : σ.unlocked = false)
    (bytes : List UInt8) : c.take bytes σ = (none, c) := by
  unfold take
  rw [h, hσ]
  rfl

theorem Consumer.take_of_rejected (hopen : c.locked = false ∨ σ.unlocked = true)
    (htuned : line.Tuned) (h : line.accepted c.parser.feedMode = false) :
    c.take (utf8 line.text) σ = (none, ⟨c.parser, true⟩) := by
  have hgate : (c.locked && !σ.unlocked) = false := by
    rcases hopen with hopen | hopen
    · rw [hopen, Bool.false_and]
    · rw [hopen, Bool.not_true, Bool.and_false]
  obtain ⟨e, he⟩ := HostLine.parseLine_text_error htuned h
  unfold take
  rw [hgate, if_neg Bool.false_ne_true, he]

/-- What is refused when it fails is what moves. -/
theorem HostLine.refusable_command {m : ModalState ℚ} {command : PlannerCommand ℚ}
    (h : line.command m = some command) :
    Host.refusable command = line.moves ∧ Host.failureLocks command = line.failureLocks := by
  cases line with
  | units => cases h
  | distance mode => cases h
  | _ =>
    obtain rfl := Option.some.inj h
    exact ⟨rfl, rfl⟩

theorem HostLine.failureLocks_of_command {m : ModalState ℚ} (h : line.command m = none) :
    line.failureLocks = false := by
  cases line with
  | units => rfl
  | distance mode => rfl
  | _ => cases h

/-- **A line that is heeded** sets its modes, and is carried out if it is not refused. -/
theorem Consumer.take_of_accepted (hopen : c.locked = false ∨ σ.unlocked = true)
    (htuned : line.Tuned) (h : line.accepted c.parser.feedMode = true) :
    c.take (utf8 line.text) σ
      = (if σ.fails && line.moves then none else line.command (line.next c.parser),
        ⟨line.next c.parser, σ.alarmed || (σ.fails && line.failureLocks)⟩) := by
  have hgate : (c.locked && !σ.unlocked) = false := by
    rcases hopen with hopen | hopen
    · rw [hopen, Bool.false_and]
    · rw [hopen, Bool.not_true, Bool.and_false]
  unfold take
  rw [hgate, if_neg Bool.false_ne_true, HostLine.parseLine_text htuned h]
  cases hcommand : line.command (line.next c.parser) with
  | none =>
    dsimp only
    rw [HostLine.failureLocks_of_command hcommand, Bool.and_false, Bool.or_false, ite_self]
  | some command =>
    dsimp only
    obtain ⟨hmoves, hlocks⟩ := HostLine.refusable_command hcommand
    rw [hmoves, hlocks]

end Take

/-! ## A run -/

section Run

variable (lines : List HostLine) (start : ModalState ℚ) (σ : ℕ → Stimulus)

/-- The machine before a line of the sequence. It is not locked when the sequence begins. -/
def stateAt : ℕ → Consumer
  | 0 => ⟨start, false⟩
  | k + 1 =>
    match lines[k]? with
    | some line => ((stateAt k).take (utf8 line.text) (σ k)).2
    | none => stateAt k

/-- What is carried out at a line of the sequence. -/
def carriedOut (k : ℕ) : Option (PlannerCommand ℚ) :=
  lines[k]?.bind fun line => ((stateAt lines start σ k).take (utf8 line.text) (σ k)).1

end Run

/-! ## Safety -/

end Galdr.Host

namespace Galdr

/-- Where a line leads in millimetres, before it is rounded to steps. -/
def Planner.targetMm (p : Planner ℚ) (axes : AxisWords ℚ) (units : Units) (distance : DistanceMode)
    (machineCoords : Bool) : Axes ℚ := fun axis =>
  match axes.word axis with
  | none => p.positionMm axis
  | some value => p.wordMm value units distance machineCoords axis

namespace Host

open Text

/-- A probe goes along one axis, in a direction, and at most so far: from wherever it starts, and
on any machine. Its feed is the one that was set, in millimetres per minute. -/
def IsStroke (axis : Axis) (dir : Dir) (depth feed : ℚ) (axes : AxisWords ℚ) (units : Units)
    (distance : DistanceMode) (f : ℚ) : Prop :=
  |f * unitsScale units - feed| ≤ 1 / 2 ∧ ∀ p : Planner ℚ, ∃ travel, 0 ≤ travel
    ∧ travel ≤ depth + 1 / 2000
    ∧ p.targetMm axes units distance false
      = Function.update p.positionMm axis.index (p.positionMm axis.index + dir.sign * travel)

/-- A move takes the spindle axis to a height of the machine, and nothing else. -/
def IsHeight (z : ℚ) (axes : AxisWords ℚ) (units : Units) (distance : DistanceMode)
    (machineCoords : Bool) : Prop :=
  ∀ p : Planner ℚ, ∃ height, |height - z| ≤ 1 / 2000
    ∧ p.targetMm axes units distance machineCoords = Function.update p.positionMm zAxis height

/-- What is carried out is what the line is for. -/
def HostLine.Meets : HostLine → PlannerCommand ℚ → Prop
  | height z, .move _ axes scale mode _ _ machineCoords => IsHeight z axes scale mode machineCoords
  | stroke _ axis dir depth feed, .probe _ axes scale mode f =>
    IsStroke axis dir depth feed axes scale mode f
  | plunge depth feed, .probe _ axes scale mode f => IsStroke .z .neg depth feed axes scale mode f
  | height _, _ | stroke _ _ _ _ _, _ | plunge _ _, _ => False
  | _, _ => True

/-! ### Strokes and heights -/

/-- A machine with a step for every millimetre. -/
def unitConfig : PlannerConfig ℚ where
  stepsPerMm := fun _ => 1
  maxRateMmMin := fun _ => 1
  accelMmS2 := fun _ => 1
  junctionDeviationMm := 0
  arcToleranceMm := 1
  rotaryMask := 0
  stepsPerMm_pos := fun _ => one_pos
  maxRateMmMin_pos := fun _ => one_pos
  accelMmS2_pos := fun _ => one_pos
  junctionDeviationMm_nonneg := le_rfl
  arcToleranceMm_pos := one_pos

/-- It, at a place. -/
def unitPlanner (steps : Int32) : Planner ℚ := (Planner.new unitConfig).syncPosition fun _ => steps

theorem positionMm_unitPlanner (steps : Int32) (axis : Fin 4) :
    (unitPlanner steps).positionMm axis = steps.toInt := div_one _

theorem toInt_one : ((1 : Int32).toInt : ℚ) = 1 := by
  rw [show (1 : Int32).toInt = 1 by decide, Int.cast_one]

theorem toInt_neg_one : ((-1 : Int32).toInt : ℚ) = -1 := by
  rw [show (-1 : Int32).toInt = -1 by decide, Int.cast_neg, Int.cast_one]

theorem toInt_zero : ((0 : Int32).toInt : ℚ) = 0 := by
  rw [show (0 : Int32).toInt = 0 by decide, Int.cast_zero]

theorem isRotary_unitPlanner (steps : Int32) (axis : Fin 4) :
    (unitPlanner steps).config.isRotary axis = false := by
  revert axis
  show ∀ axis, rotaryBit 0 axis = false
  decide

section Meets

variable {units : Units} {distance : DistanceMode} {machineCoords : Bool}

/-- One word moves one axis. -/
theorem targetMm_set (p : Planner ℚ) (axis : Axis) (value : ℚ) :
    p.targetMm (AxisWords.none.set axis value) units distance machineCoords
      = Function.update p.positionMm axis.index
        (p.wordMm value units distance machineCoords axis.index) := by
  funext i
  unfold Planner.targetMm
  rw [AxisWords.word_set]
  by_cases hi : i = axis.index
  · rw [if_pos hi, hi, Function.update_self]
  · rw [if_neg hi, Function.update_of_ne hi]
    have hnone : (AxisWords.none : AxisWords ℚ).word i = none := by fin_cases i <;> rfl
    rw [hnone]

/-- In millimetres a word is not scaled. -/
theorem scale_millimeter (p : Planner ℚ) (axis : Fin 4) :
    (if p.config.isRotary axis then 1 else unitsScale .millimeter : ℚ) = 1 := ite_self 1

theorem unitsScale_inch : (unitsScale .inch : ℚ) = 254 / 10 := rfl

theorem scale_unitPlanner (steps : Int32) (axis : Fin 4) :
    (if (unitPlanner steps).config.isRotary axis then 1 else unitsScale units : ℚ)
      = unitsScale units := by
  rw [isRotary_unitPlanner, if_neg Bool.false_ne_true]

theorem printedEven_neg (count : ℕ) (value : ℚ) :
    printedEven count (-value) = -printedEven count value := by
  unfold printedEven
  rw [neg_mul, abs_neg]
  dsimp only
  rcases lt_trichotomy value 0 with h | rfl | h
  · rw [if_neg (neg_pos.2 h).not_gt, if_pos h, neg_neg]
  · rw [neg_zero, if_neg (lt_irrefl _), zero_mul, abs_zero]
    norm_num [Binary32.halfEven]
  · rw [if_pos (neg_lt_zero.2 h), if_neg h.not_gt]

theorem printedEven_nonneg (count : ℕ) {value : ℚ} (h : 0 ≤ value) : 0 ≤ printedEven count value := by
  unfold printedEven
  dsimp only
  rw [if_neg h.not_gt]
  positivity

/-- What goes a signed distance from where it is goes so far. -/
theorem printedEven_sign (count : ℕ) (dir : Dir) (value : ℚ) :
    printedEven count (dir.sign * value) = dir.sign * printedEven count value := by
  cases dir with
  | pos => rw [Dir.sign, one_mul, one_mul]
  | neg => rw [Dir.sign, neg_one_mul, neg_one_mul, printedEven_neg]

theorem printedEven_three_le (value : ℚ) : printedEven 3 value ≤ value + 1 / 2000 := by
  have h := (abs_le.1 (abs_printedEven_sub_le 3 value)).2
  norm_num at h ⊢
  linarith

/-- A printed value is zero, or has a digit. -/
theorem printedEven_three_eq_zero {value : ℚ} (h : |printedEven 3 value| < 1 / 1000) :
    printedEven 3 value = 0 := by
  unfold printedEven at h ⊢
  generalize (Binary32.halfEven |value * 10 ^ 3|).natAbs = n at *
  dsimp only at h ⊢
  have hn : n = 0 := by
    have habs : |(n : ℚ) / 10 ^ 3| < 1 / 1000 := by
      split_ifs at h
      · rwa [abs_neg] at h
      · exact h
    rw [abs_of_nonneg (by positivity)] at habs
    have hlt : (n : ℚ) < 1 := by
      norm_num at habs
      linarith
    exact Nat.lt_one_iff.1 (by exact_mod_cast hlt)
  rw [hn, Nat.cast_zero, zero_div, neg_zero, ite_self]

/-- A feed is what was set only in millimetres. -/
theorem feed_close_iff {feed : ℚ} (h : 1 ≤ feed) :
    |printedEven 0 feed * unitsScale units - feed| ≤ 1 / 2 ↔ units = .millimeter := by
  have hclose := abs_printedEven_sub_le 0 feed
  rw [pow_zero, div_one] at hclose
  cases units with
  | millimeter =>
    rw [show (unitsScale .millimeter : ℚ) = 1 from rfl, mul_one]
    exact iff_of_true hclose rfl
  | inch =>
    refine iff_of_false (fun hinch => ?_) (by decide)
    rw [unitsScale_inch] at hinch
    have hlow := (abs_le.1 hclose).1
    have hhigh := (abs_le.1 hinch).2
    linarith

/-- **When a probe is a stroke**: in millimetres, from where it is. -/
theorem isStroke_iff (axis : Axis) (dir : Dir) {depth feed : ℚ} (hdepth : 0 < depth)
    (hfeed : 1 ≤ feed) :
    IsStroke axis dir depth feed (AxisWords.none.set axis (printedEven 3 (dir.sign * depth))) units
        distance (printedEven 0 feed)
      ↔ distance = .incremental ∧ units = .millimeter := by
  unfold IsStroke
  rw [feed_close_iff hfeed, and_comm]
  refine and_congr_left fun hunits => ?_
  subst hunits
  have hnonneg := printedEven_nonneg 3 hdepth.le
  rw [printedEven_sign]
  cases distance with
  | incremental =>
    refine iff_of_true (fun p => ⟨printedEven 3 depth, hnonneg, printedEven_three_le depth, ?_⟩) rfl
    rw [targetMm_set]
    unfold Planner.wordMm
    dsimp only
    rw [scale_millimeter, mul_one]
  | absolute =>
    refine iff_of_false (fun h => ?_) (by decide)
    -- The same word from two places, far enough from each other.
    have htravel : ∀ steps : Int32, ∃ travel, 0 ≤ travel ∧ travel ≤ depth + 1 / 2000
        ∧ dir.sign * printedEven 3 depth = steps.toInt + dir.sign * travel := by
      intro steps
      obtain ⟨travel, hpos, hle, htarget⟩ := h (unitPlanner steps)
      rw [targetMm_set] at htarget
      have hvalue := congrFun htarget axis.index
      rw [Function.update_self, Function.update_self, positionMm_unitPlanner] at hvalue
      refine ⟨travel, hpos, hle, hvalue ▸ ?_⟩
      unfold Planner.wordMm
      dsimp only
      rw [scale_millimeter, mul_one, if_neg Bool.false_ne_true]
      exact (add_zero _).symm
    have hprinted := (abs_le.1 (abs_printedEven_sub_le 3 depth)).1
    norm_num at hprinted
    cases dir with
    | pos =>
      obtain ⟨travel, hpos, hle, hvalue⟩ := htravel (-1)
      rw [Dir.sign, one_mul, one_mul, toInt_neg_one] at hvalue
      linarith
    | neg =>
      obtain ⟨travel, hpos, hle, hvalue⟩ := htravel 1
      rw [Dir.sign, neg_one_mul, neg_one_mul, toInt_one] at hvalue
      linarith

/-- **When a move goes to a height**: in absolute positions, and in millimetres or to zero. -/
theorem isHeight_iff (z : ℚ) :
    IsHeight z (AxisWords.none.set .z (printedEven 3 z)) units distance true
      ↔ distance = .absolute ∧ (units = .millimeter ∨ printedEven 3 z = 0) := by
  have hclose := abs_printedEven_sub_le 3 z
  norm_num at hclose
  constructor
  · intro h
    have hheight : ∀ steps : Int32, ∃ height, |height - z| ≤ 1 / 2000
        ∧ (unitPlanner steps).wordMm (printedEven 3 z) units distance true zAxis = height := by
      intro steps
      obtain ⟨height, hle, htarget⟩ := h (unitPlanner steps)
      rw [targetMm_set] at htarget
      have hvalue := congrFun htarget zAxis
      rw [show Axis.index .z = zAxis from rfl, Function.update_self, Function.update_self] at hvalue
      exact ⟨height, hle, hvalue⟩
    cases distance with
    | incremental =>
      obtain ⟨a, ha, hvalue⟩ := hheight 0
      obtain ⟨b, hb, hvalue'⟩ := hheight 1
      unfold Planner.wordMm at hvalue hvalue'
      dsimp only at hvalue hvalue'
      rw [positionMm_unitPlanner, scale_unitPlanner] at hvalue hvalue'
      have hab : b - a = 1 := by
        rw [← hvalue, ← hvalue', toInt_one, toInt_zero]
        ring
      have hlow := (abs_le.1 ha).1
      have hhigh := (abs_le.1 hb).2
      linarith
    | absolute =>
      refine ⟨rfl, ?_⟩
      cases units with
      | millimeter => exact .inl rfl
      | inch =>
        right
        obtain ⟨a, ha, hvalue⟩ := hheight 0
        unfold Planner.wordMm at hvalue
        dsimp only at hvalue
        rw [scale_unitPlanner, unitsScale_inch, if_pos rfl] at hvalue
        obtain ⟨hlow, hhigh⟩ := abs_le.1 ha
        obtain ⟨hlow', hhigh'⟩ := abs_le.1 hclose
        refine printedEven_three_eq_zero (abs_lt.2 ⟨?_, ?_⟩)
        · linarith
        · linarith
  · rintro ⟨rfl, hunits⟩ p
    refine ⟨printedEven 3 z, hclose, ?_⟩
    rw [targetMm_set]
    unfold Planner.wordMm
    dsimp only
    rw [if_pos rfl]
    rcases hunits with rfl | hzero
    · rw [scale_millimeter, mul_one]
      rfl
    · rw [hzero, zero_mul]
      rfl

end Meets

/-- **A sequence is safe**: every stroke and every height is what it is for, and positions are
absolute when it has been taken. -/
structure ModalSafe (lines : List HostLine) (start : ModalState ℚ) (σ : ℕ → Stimulus) : Prop where
  meets : ∀ k line command, lines[k]? = some line → carriedOut lines start σ k = some command →
    line.Meets command
  absolute : (stateAt lines start σ lines.length).parser.distance = .absolute

/-! ## Which lines are heeded -/

section Heeded

variable (lines : List HostLine) (start : ModalState ℚ) (σ : ℕ → Stimulus)

/-- A line goes through: it is accepted, does not fail in a way that locks, and no alarm strikes. -/
def Passes (k : ℕ) : Prop :=
  ∀ line, lines[k]? = some line → line.accepted start.feedMode = true ∧ (σ k).alarmed = false
    ∧ ((σ k).fails && line.failureLocks) = false

/-- No lock is on before a line: each line since the start, or since the operator took the last
lock off, has gone through. -/
def IsOpen : ℕ → Prop
  | 0 => True
  | k + 1 => (IsOpen k ∨ (σ k).unlocked = true) ∧ Passes lines start σ k

/-- A line is heeded: no lock is on when it comes, and it is accepted. -/
structure Heeded (k : ℕ) (line : HostLine) : Prop where
  get : lines[k]? = some line
  arrives : IsOpen lines start σ k ∨ (σ k).unlocked = true
  accepted : line.accepted start.feedMode = true

/-- Before a line, the last one that was heeded and sets the distance mode sets absolute positions,
or there is none and positions were absolute at the start. -/
def AbsoluteAt (n : ℕ) : Prop :=
  (∃ k < n, ∃ line, Heeded lines start σ k line ∧ line.sets = some .absolute
    ∧ ∀ j, k < j → j < n → ∀ later, Heeded lines start σ j later → later.sets ≠ some .incremental)
  ∨ start.distance = .absolute
    ∧ ∀ j < n, ∀ line, Heeded lines start σ j line → line.sets ≠ some .incremental

/-- Before a line, millimetres are in force: from the start, or by a line that was heeded. -/
def MetricAt (n : ℕ) : Prop :=
  start.units = .millimeter ∨ ∃ k < n, Heeded lines start σ k .units

/-- A line comes in the modes that it is written for. -/
def Suits (k : ℕ) : HostLine → Prop
  | .height z =>
    AbsoluteAt lines start σ k ∧ (MetricAt lines start σ k ∨ printedEven 3 z = 0)
  | .stroke _ _ _ _ _ => MetricAt lines start σ k
  | .plunge _ _ => ¬AbsoluteAt lines start σ k ∧ MetricAt lines start σ k
  | _ => True

variable {lines start σ} {k : ℕ} {line : HostLine}

theorem Heeded.eq (h : Heeded lines start σ k line) {other : HostLine}
    (h' : Heeded lines start σ k other) : other = line :=
  Option.some.inj (h'.get.symm.trans h.get)

/-- A line that is not heeded, or sets no distance mode, leaves it. -/
theorem absoluteAt_succ_of_not (h : ∀ line, Heeded lines start σ k line → line.sets = none) :
    AbsoluteAt lines start σ (k + 1) ↔ AbsoluteAt lines start σ k := by
  have hnone : ∀ line, Heeded lines start σ k line → ∀ mode, line.sets ≠ some mode := by
    intro line hline mode hmode
    rw [h line hline] at hmode
    cases hmode
  constructor
  · rintro (⟨i, hi, line, hline, hsets, hlater⟩ | ⟨hstart, hlater⟩)
    · rcases Nat.lt_succ_iff_lt_or_eq.1 hi with hi | rfl
      · exact .inl ⟨i, hi, line, hline, hsets, fun j hij hj => hlater j hij (Nat.lt_succ_of_lt hj)⟩
      · exact absurd hsets (hnone line hline _)
    · exact .inr ⟨hstart, fun j hj => hlater j (Nat.lt_succ_of_lt hj)⟩
  · rintro (⟨i, hi, line, hline, hsets, hlater⟩ | ⟨hstart, hlater⟩)
    · refine .inl ⟨i, Nat.lt_succ_of_lt hi, line, hline, hsets, fun j hij hj later hheeded => ?_⟩
      rcases Nat.lt_succ_iff_lt_or_eq.1 hj with hj | rfl
      · exact hlater j hij hj later hheeded
      · exact hnone later hheeded _
    · refine .inr ⟨hstart, fun j hj later hheeded => ?_⟩
      rcases Nat.lt_succ_iff_lt_or_eq.1 hj with hj | rfl
      · exact hlater j hj later hheeded
      · exact hnone later hheeded _

/-- A line that is heeded and sets the distance mode sets it. -/
theorem absoluteAt_succ_of_sets (h : Heeded lines start σ k line) {mode : DistanceMode}
    (hsets : line.sets = some mode) : AbsoluteAt lines start σ (k + 1) ↔ mode = .absolute := by
  constructor
  · intro habsolute
    by_contra hmode
    have hincremental : line.sets = some .incremental := by
      cases mode with
      | absolute => exact absurd rfl hmode
      | incremental => exact hsets
    rcases habsolute with ⟨i, hi, other, hother, hset, hlater⟩ | ⟨-, hlater⟩
    · rcases Nat.lt_succ_iff_lt_or_eq.1 hi with hi | rfl
      · exact hlater k hi (Nat.lt_succ_self k) line h hincremental
      · rw [h.eq hother, hincremental] at hset
        cases hset
    · exact hlater k (Nat.lt_succ_self k) line h hincremental
  · rintro rfl
    exact .inl ⟨k, Nat.lt_succ_self k, line, h, hsets, fun j hkj hj => by omega⟩

theorem metricAt_succ :
    MetricAt lines start σ (k + 1) ↔ MetricAt lines start σ k ∨ Heeded lines start σ k .units := by
  constructor
  · rintro (hstart | ⟨i, hi, hunits⟩)
    · exact .inl (.inl hstart)
    · rcases Nat.lt_succ_iff_lt_or_eq.1 hi with hi | rfl
      · exact .inl (.inr ⟨i, hi, hunits⟩)
      · exact .inr hunits
  · rintro ((hstart | ⟨i, hi, hunits⟩) | hunits)
    · exact .inl hstart
    · exact .inr ⟨i, Nat.lt_succ_of_lt hi, hunits⟩
    · exact .inr ⟨k, Nat.lt_succ_self k, hunits⟩

end Heeded

/-! ## The machine heeds what it is said to -/

namespace HostLine

theorem next_feedMode (m : ModalState ℚ) (line : HostLine) : (line.next m).feedMode = m.feedMode := by
  cases line <;> rfl

theorem next_distance (m : ModalState ℚ) (line : HostLine) :
    (line.next m).distance = line.sets.getD m.distance := by
  cases line <;> rfl

theorem next_units (m : ModalState ℚ) (line : HostLine) :
    (line.next m).units = if line = .units then .millimeter else m.units := by
  cases line <;> rfl

end HostLine

/-- What is known of the machine before a line. -/
structure Tracks (lines : List HostLine) (start : ModalState ℚ) (σ : ℕ → Stimulus) (k : ℕ)
    (c : Consumer) : Prop where
  feedMode : c.parser.feedMode = start.feedMode
  locked : c.locked = false ↔ IsOpen lines start σ k
  distance : c.parser.distance = .absolute ↔ AbsoluteAt lines start σ k
  units : c.parser.units = .millimeter ↔ MetricAt lines start σ k

section Tracks

variable {lines : List HostLine} {start : ModalState ℚ} {σ : ℕ → Stimulus} {k : ℕ}
  {line : HostLine} {c : Consumer}

/-- A line that is passed over. -/
theorem Tracks.pass_over (h : Tracks lines start σ k c)
    (hlocked : c.locked = true) (hσ : (σ k).unlocked = false) :
    Tracks lines start σ (k + 1) (c.take (utf8 line.text) (σ k)).2 := by
  have harrives : ¬(IsOpen lines start σ k ∨ (σ k).unlocked = true) := by
    rintro (hopen | hunlocked)
    · rw [h.locked.2 hopen] at hlocked
      cases hlocked
    · rw [hσ] at hunlocked
      cases hunlocked
  have hnot : ∀ line, ¬Heeded lines start σ k line := fun line hline => harrives hline.arrives
  rw [Consumer.take_of_locked hlocked hσ]
  refine ⟨h.feedMode, ?_, ?_, ?_⟩
  · rw [hlocked]
    exact iff_of_false (by decide) fun hopen => harrives hopen.1
  · rw [absoluteAt_succ_of_not fun line hline => absurd hline (hnot line)]
    exact h.distance
  · rw [metricAt_succ, or_iff_left (hnot _)]
    exact h.units

/-- A line that is taken. -/
theorem Tracks.take (h : Tracks lines start σ k c) (hget : lines[k]? = some line)
    (htuned : line.Tuned) (hopen : c.locked = false ∨ (σ k).unlocked = true) :
    Tracks lines start σ (k + 1) (c.take (utf8 line.text) (σ k)).2 := by
  have harrives : IsOpen lines start σ k ∨ (σ k).unlocked = true := hopen.imp_left h.locked.1
  cases haccepted : line.accepted start.feedMode with
  | false =>
    have hnot : ∀ other, ¬Heeded lines start σ k other := by
      intro other hother
      have hline : other = line := Option.some.inj (hother.get.symm.trans hget)
      have hfalse := hother.accepted
      rw [hline, haccepted] at hfalse
      cases hfalse
    rw [Consumer.take_of_rejected hopen htuned (by rw [h.feedMode, haccepted])]
    refine ⟨h.feedMode, ?_, ?_, ?_⟩
    · refine iff_of_false Bool.false_ne_true.symm fun hpass => ?_
      have htrue := (hpass.2 line hget).1
      rw [haccepted] at htrue
      cases htrue
    · rw [absoluteAt_succ_of_not fun line hline => absurd hline (hnot line)]
      exact h.distance
    · rw [metricAt_succ, or_iff_left (hnot _)]
      exact h.units
  | true =>
    have hheeded : Heeded lines start σ k line := ⟨hget, harrives, haccepted⟩
    rw [Consumer.take_of_accepted hopen htuned (by rw [h.feedMode, haccepted])]
    refine ⟨(line.next_feedMode _).trans h.feedMode, ?_, ?_, ?_⟩
    · constructor
      · intro hlock
        refine ⟨harrives, fun other hother => ?_⟩
        obtain rfl := Option.some.inj (hother.symm.trans hget)
        exact ⟨haccepted, (Bool.or_eq_false_iff.1 hlock).1, (Bool.or_eq_false_iff.1 hlock).2⟩
      · rintro ⟨-, hpass⟩
        obtain ⟨-, halarmed, hfails⟩ := hpass line hget
        exact Bool.or_eq_false_iff.2 ⟨halarmed, hfails⟩
    · show (line.next c.parser).distance = .absolute ↔ _
      rw [HostLine.next_distance]
      cases hsets : line.sets with
      | none =>
        rw [absoluteAt_succ_of_not fun other hother => hheeded.eq hother ▸ hsets]
        exact h.distance
      | some mode => exact (absoluteAt_succ_of_sets hheeded hsets).symm
    · show (line.next c.parser).units = .millimeter ↔ _
      rw [HostLine.next_units, metricAt_succ]
      by_cases hunits : line = .units
      · rw [if_pos hunits]
        exact iff_of_true rfl (.inr (hunits ▸ hheeded))
      · rw [if_neg hunits, h.units]
        exact (or_iff_left fun hother => hunits (hheeded.eq hother).symm).symm

/-- **The machine heeds the lines that it is said to heed.** -/
theorem tracks_stateAt (htuned : ∀ line ∈ lines, line.Tuned) {k : ℕ} (hk : k ≤ lines.length) :
    Tracks lines start σ k (stateAt lines start σ k) := by
  induction k with
  | zero =>
    refine ⟨rfl, iff_of_true rfl trivial, ?_, ?_⟩
    · constructor
      · exact fun h => .inr ⟨h, fun j hj => absurd hj (Nat.not_lt_zero j)⟩
      · rintro (⟨j, hj, -⟩ | ⟨h, -⟩)
        · exact absurd hj (Nat.not_lt_zero j)
        · exact h
    · constructor
      · exact .inl
      · rintro (h | ⟨j, hj, -⟩)
        · exact h
        · exact absurd hj (Nat.not_lt_zero j)
  | succ k ih =>
    have hget : lines[k]? = some lines[k] := List.getElem?_eq_getElem hk
    have htracks := ih (Nat.le_of_succ_le hk)
    have hstate : stateAt lines start σ (k + 1)
        = ((stateAt lines start σ k).take (utf8 lines[k].text) (σ k)).2 := by
      conv_lhs => unfold stateAt
      rw [hget]
    rw [hstate]
    cases hlocked : (stateAt lines start σ k).locked with
    | false =>
      exact htracks.take hget (htuned _ (List.getElem_mem _)) (.inl hlocked)
    | true =>
      cases hσ : (σ k).unlocked with
      | false => exact htracks.pass_over hlocked hσ
      | true => exact htracks.take hget (htuned _ (List.getElem_mem _)) (.inr hσ)

end Tracks

/-! ## The law -/

section Law

variable {lines : List HostLine} {start : ModalState ℚ} {σ : ℕ → Stimulus} {k : ℕ}
  {line : HostLine}

/-- What is carried out at a line. -/
theorem carriedOut_eq_some_iff (htuned : ∀ line ∈ lines, line.Tuned) (hget : lines[k]? = some line)
    {command : PlannerCommand ℚ} :
    carriedOut lines start σ k = some command
      ↔ Heeded lines start σ k line ∧ ((σ k).fails && line.moves) = false
        ∧ line.command (line.next (stateAt lines start σ k).parser) = some command := by
  obtain ⟨hk, hline⟩ := List.getElem?_eq_some_iff.1 hget
  have htracks := @tracks_stateAt lines start σ htuned k hk.le
  have hlineTuned : line.Tuned := htuned _ (hline ▸ List.getElem_mem hk)
  have hout : carriedOut lines start σ k
      = ((stateAt lines start σ k).take (utf8 line.text) (σ k)).1 := by
    unfold carriedOut
    rw [hget]
    rfl
  rw [hout]
  by_cases hopen : (stateAt lines start σ k).locked = false ∨ (σ k).unlocked = true
  · cases haccepted : line.accepted start.feedMode with
    | false =>
      rw [Consumer.take_of_rejected hopen hlineTuned (by rw [htracks.feedMode, haccepted])]
      refine iff_of_false (fun h => by cases h) fun h => ?_
      have htrue := h.1.accepted
      rw [haccepted] at htrue
      cases htrue
    | true =>
      rw [Consumer.take_of_accepted hopen hlineTuned (by rw [htracks.feedMode, haccepted]),
        and_iff_right (⟨hget, hopen.imp_left htracks.locked.1, haccepted⟩ : Heeded _ _ _ _ _)]
      cases hfails : (σ k).fails && line.moves with
      | false => exact (and_iff_right rfl).symm
      | true => exact iff_of_false (fun h => by cases h) fun h => by cases h.1
  · rw [not_or] at hopen
    rw [Consumer.take_of_locked (eq_true_of_ne_false hopen.1) (eq_false_of_ne_true hopen.2)]
    refine iff_of_false (fun h => by cases h) fun h => ?_
    rcases h.1.arrives with harrives | harrives
    · exact hopen.1 (htracks.locked.2 harrives)
    · exact hopen.2 harrives

/-- What is carried out is what the line is for exactly when it comes in the modes that it is
written for. -/
theorem meets_iff_suits (htuned : line.Tuned) {c : Consumer} (h : Tracks lines start σ k c)
    {command : PlannerCommand ℚ} (hcommand : line.command (line.next c.parser) = some command) :
    line.Meets command ↔ Suits lines start σ k line := by
  cases line with
  | units => cases hcommand
  | distance mode => cases hcommand
  | height z =>
    obtain rfl := Option.some.inj hcommand
    exact (isHeight_iff z).trans (and_congr h.distance (or_congr_left h.units))
  | stroke alarms axis dir depth feed =>
    obtain rfl := Option.some.inj hcommand
    exact (isStroke_iff axis dir htuned.1 htuned.2).trans ((and_iff_right rfl).trans h.units)
  | plunge depth feed =>
    obtain rfl := Option.some.inj hcommand
    have hword : (HostLine.plunge depth feed).axes
        = AxisWords.none.set .z (printedEven 3 (Dir.neg.sign * depth)) := by
      rw [Dir.sign, neg_one_mul]
      rfl
    have hincremental : c.parser.distance = .incremental ↔ ¬c.parser.distance = .absolute := by
      cases c.parser.distance <;> decide
    show IsStroke .z .neg depth feed (HostLine.plunge depth feed).axes _ _ _ ↔ _
    rw [hword]
    exact (isStroke_iff .z .neg htuned.1 htuned.2).trans
      (and_congr (hincremental.trans (not_congr h.distance)) h.units)
  | _ => exact iff_of_true trivial trivial

/-- Every line but the modal ones asks for something. -/
theorem exists_command (hsuits : ¬Suits lines start σ k line) (m : ModalState ℚ) :
    ∃ command, line.command m = some command := by
  cases line with
  | units => exact absurd trivial hsuits
  | distance mode => exact absurd trivial hsuits
  | _ => exact ⟨_, rfl⟩

/-- **When a sequence is safe**: the last line that was heeded and sets the distance mode brings
absolute positions back, and each line that is carried out comes in the modes that it is written
for. -/
theorem modalSafe_iff_of_tuned (htuned : ∀ line ∈ lines, line.Tuned) :
    ModalSafe lines start σ ↔ AbsoluteAt lines start σ lines.length
      ∧ ∀ k line, Heeded lines start σ k line → ((σ k).fails && line.moves) = false →
        Suits lines start σ k line := by
  have hlast := (@tracks_stateAt lines start σ htuned _ le_rfl).distance
  constructor
  · intro h
    refine ⟨hlast.1 h.absolute, fun k line hheeded hfails => ?_⟩
    by_contra hsuits
    obtain ⟨command, hcommand⟩ := exists_command hsuits (line.next (stateAt lines start σ k).parser)
    obtain ⟨hk, hline⟩ := List.getElem?_eq_some_iff.1 hheeded.get
    refine hsuits ((meets_iff_suits (htuned _ (hline ▸ List.getElem_mem hk))
      (tracks_stateAt htuned hk.le) hcommand).1 (h.meets k line command hheeded.get ?_))
    exact (carriedOut_eq_some_iff htuned hheeded.get).2 ⟨hheeded, hfails, hcommand⟩
  · rintro ⟨habsolute, hsuits⟩
    refine ⟨fun k line command hget hout => ?_, hlast.2 habsolute⟩
    obtain ⟨hheeded, hfails, hcommand⟩ := (carriedOut_eq_some_iff htuned hget).1 hout
    obtain ⟨hk, hline⟩ := List.getElem?_eq_some_iff.1 hget
    exact (meets_iff_suits (htuned _ (hline ▸ List.getElem_mem hk)) (tracks_stateAt htuned hk.le)
      hcommand).2 (hsuits k line hheeded hfails)

end Law

end Host

end Galdr
