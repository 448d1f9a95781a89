import Galdr.GcodeActions
import Galdr.TouchOff

/-!
# The lines of a probe

The host probes with short sequences of lines: a touch-off of the spindle axis, a touch in two
stages, a touch on the rotary, and a point of a height map. What the machine makes of each line
depends on the modes that it finds (`parseLine_text`): a stroke on the distance mode and the units,
a height of the machine on both as well.
-/

namespace Galdr.Host

open Eitri Text

/-! ## Lines -/

/-- `{:.0}`: halves to even, and no point. -/
def formatWhole (value : ℚ) : List Char :=
  F32.sign (decide (value < 0)) ++ Nat.toDigits 10 (Binary32.halfEven |value|).natAbs

/-- A feed. -/
def feedWord (feed : ℚ) : List Char := ' ' :: 'F' :: formatWhole feed

/-- A line of a probe sequence. -/
inductive HostLine
  /-- Millimetres. -/
  | units
  /-- A distance mode. -/
  | distance (mode : DistanceMode)
  /-- The spindle axis goes to a height of the machine. -/
  | height (z : ℚ)
  /-- The rotary goes to an angle. -/
  | index (angle : ℚ)
  /-- The tool goes to a node of a height map. -/
  | node (x y : ℚ)
  /-- A pause. -/
  | settle (seconds : ℚ)
  /-- A relative move off a surface. -/
  | retract (axis : Axis) (travel : ℚ)
  /-- A relative probe. One that makes no contact raises an alarm, or does not. -/
  | stroke (alarms : Bool) (axis : Axis) (dir : Dir) (depth feed : ℚ)
  /-- A probe of the spindle axis, downwards, in the mode in force. -/
  | plunge (depth feed : ℚ)
  deriving DecidableEq

/-- The tenths of `G38.2` and `G38.3`. -/
def probeDigit (alarms : Bool) : Char := if alarms then '2' else '3'

/-- A line as it is sent. -/
def HostLine.text : HostLine → List Char
  | units => ['G', '2', '1']
  | distance .absolute => ['G', '9', '0']
  | distance .incremental => ['G', '9', '1']
  | height z => ['G', '5', '3', ' ', 'G', '0'] ++ word3 .z z
  | index angle => ['G', '9', '0', ' ', 'G', '0'] ++ word3 .a angle
  | node x y => ['G', '9', '0', ' ', 'G', '0'] ++ word3 .x x ++ word3 .y y
  | settle seconds => ['G', '4', ' ', 'P'] ++ formatFixed seconds 3
  | retract axis travel => ['G', '9', '1', ' ', 'G', '0'] ++ word3 axis travel
  | stroke alarms axis dir depth feed =>
    ['G', '9', '1', ' ', 'G', '3', '8', '.', probeDigit alarms] ++ word3 axis (dir.sign * depth)
      ++ feedWord feed
  | plunge depth feed =>
    ['G', '3', '8', '.', '2', ' ', 'Z', '-'] ++ formatFixed depth 3 ++ feedWord feed

/-! ## Sequences -/

/-- The lines of `probe_z`. -/
def zeroZLines (depth feed : ℚ) : List HostLine :=
  [.distance .incremental, .plunge depth feed, .distance .absolute]

/-- What a touch in two stages is tuned to. The fields of the panel admit no less. -/
structure ProbeParams where
  /-- The farthest fast travel. -/
  probeDistance : ℚ
  /-- The retract between the two stages. -/
  latchDistance : ℚ
  /-- The fast feed. -/
  probeFeed : ℚ
  /-- The slow feed. -/
  latchFeed : ℚ
  /-- A travel has a length. -/
  probeDistance_pos : 0 < probeDistance
  /-- A retract has a length. -/
  latchDistance_pos : 0 < latchDistance
  /-- A feed is at least one. -/
  one_le_probeFeed : 1 ≤ probeFeed
  /-- A feed is at least one. -/
  one_le_latchFeed : 1 ≤ latchFeed

/-- The least travel of the slow stage. -/
def minSlowTravelMm : ℚ := 2

/-- The travel of the slow stage. -/
def ProbeParams.slowTravel (params : ProbeParams) : ℚ :=
  max (params.latchDistance * (3 / 2)) minSlowTravelMm

/-- `touch_lines`. -/
def touchLines (t : Touch) (params : ProbeParams) : List HostLine :=
  [.units,
    .stroke false t.axis t.dir params.probeDistance params.probeFeed,
    .retract t.axis (-t.dir.sign * params.latchDistance),
    .stroke false t.axis t.dir params.slowTravel params.latchFeed,
    .distance .absolute]

/-- A touch on the rotary. -/
structure RotaryTouch where
  /-- The angle that it is made at. -/
  angleDeg : ℚ
  /-- The axis. -/
  axis : Axis
  /-- The direction. -/
  dir : Dir

/-- What a touch on the rotary is tuned to. -/
structure RotaryProbeParams where
  /-- The height that the tool is clear at. -/
  clearanceMm : ℚ
  /-- The pause behind an indexing. -/
  settleSecs : ℚ
  /-- The feed. -/
  feed : ℚ
  /-- The farthest travel. -/
  depthMm : ℚ
  /-- The height of a touch from the side. -/
  sideProbeZ : ℚ
  /-- A travel has a length. -/
  depthMm_pos : 0 < depthMm
  /-- A feed is at least one. -/
  one_le_feed : 1 ≤ feed

/-- The axes that are touched from the side. -/
def Axis.isSide : Axis → Bool
  | x | y => true
  | z | a => false

/-- `rotary_safe_probe_lines`. -/
def rotarySafeProbeLines (touch : RotaryTouch) (params : RotaryProbeParams) : List HostLine :=
  [.height params.clearanceMm, .index touch.angleDeg, .settle params.settleSecs]
    ++ (if touch.axis.isSide then [.height params.sideProbeZ] else [])
    ++ [.stroke true touch.axis touch.dir params.depthMm params.feed, .distance .absolute]

/-- What the points of a height map are probed with. -/
structure GridProbeParams where
  /-- The height that the probe is clear at. -/
  clearanceZ : ℚ
  /-- The fast feed. -/
  probeFeed : ℚ
  /-- The farthest fast travel. -/
  probeDepth : ℚ
  /-- The retract between the two stages. -/
  latchDistance : ℚ
  /-- The slow feed. -/
  latchFeed : ℚ
  /-- A travel has a length. -/
  probeDepth_pos : 0 < probeDepth
  /-- A retract has a length. -/
  latchDistance_pos : 0 < latchDistance
  /-- A feed is at least one. -/
  one_le_probeFeed : 1 ≤ probeFeed
  /-- A feed is at least one. -/
  one_le_latchFeed : 1 ≤ latchFeed

/-- The touch of a point. -/
def GridProbeParams.touchParams (params : GridProbeParams) : ProbeParams where
  probeDistance := params.probeDepth
  latchDistance := params.latchDistance
  probeFeed := params.probeFeed
  latchFeed := params.latchFeed
  probeDistance_pos := params.probeDepth_pos
  latchDistance_pos := params.latchDistance_pos
  one_le_probeFeed := params.one_le_probeFeed
  one_le_latchFeed := params.one_le_latchFeed

/-- `point_probe_lines`. -/
def pointProbeLines (probeXy : ℚ × ℚ) (params : GridProbeParams) : List HostLine :=
  [.units, .height params.clearanceZ, .node probeXy.1 probeXy.2]
    ++ touchLines ⟨.z, .neg⟩ params.touchParams ++ [.height params.clearanceZ]

/-- The sequences that the host emits. -/
inductive ProbeSequence
  /-- A touch-off of the spindle axis. -/
  | zeroZ (depth feed : ℚ) (depth_pos : 0 < depth) (one_le_feed : 1 ≤ feed)
  /-- A touch of a datum. -/
  | datum (t : Touch) (params : ProbeParams)
  /-- A touch on the rotary. -/
  | rotary (touch : RotaryTouch) (params : RotaryProbeParams)
  /-- A point of a height map. -/
  | meshPoint (probeXy : ℚ × ℚ) (params : GridProbeParams)

/-- The lines of a sequence, in order. -/
def ProbeSequence.lines : ProbeSequence → List HostLine
  | zeroZ depth feed _ _ => zeroZLines depth feed
  | datum t params => touchLines t params
  | rotary touch params => rotarySafeProbeLines touch params
  | meshPoint probeXy params => pointProbeLines probeXy params

/-- The numbers of a line are such as the panels admit. -/
def HostLine.Tuned : HostLine → Prop
  | stroke _ _ _ depth feed => 0 < depth ∧ 1 ≤ feed
  | plunge depth feed => 0 < depth ∧ 1 ≤ feed
  | _ => True

theorem ProbeParams.slowTravel_pos (params : ProbeParams) : 0 < params.slowTravel :=
  lt_max_of_lt_right two_pos

theorem tuned_touchLines (t : Touch) (params : ProbeParams) :
    ∀ line ∈ touchLines t params, line.Tuned := by
  intro line hline
  unfold touchLines at hline
  simp only [List.mem_cons, List.not_mem_nil, or_false] at hline
  obtain rfl | rfl | rfl | rfl | rfl := hline
  · trivial
  · exact ⟨params.probeDistance_pos, params.one_le_probeFeed⟩
  · trivial
  · exact ⟨params.slowTravel_pos, params.one_le_latchFeed⟩
  · trivial

/-- The lines of a sequence are tuned. -/
theorem ProbeSequence.tuned (seq : ProbeSequence) : ∀ line ∈ seq.lines, line.Tuned := by
  cases seq with
  | zeroZ depth feed hdepth hfeed =>
    intro line hline
    simp only [lines, zeroZLines, List.mem_cons, List.not_mem_nil, or_false] at hline
    obtain rfl | rfl | rfl := hline
    · trivial
    · exact ⟨hdepth, hfeed⟩
    · trivial
  | datum t params => exact tuned_touchLines t params
  | rotary touch params =>
    intro line hline
    simp only [lines, rotarySafeProbeLines, List.mem_append, List.mem_cons, List.not_mem_nil,
      or_false, List.mem_ite_nil_right] at hline
    obtain ((rfl | rfl | rfl) | ⟨-, rfl⟩) | rfl | rfl := hline
    · trivial
    · trivial
    · trivial
    · trivial
    · exact ⟨params.depthMm_pos, params.one_le_feed⟩
    · trivial
  | meshPoint probeXy params =>
    intro line hline
    simp only [lines, pointProbeLines, List.mem_append, List.mem_cons, List.not_mem_nil,
      or_false] at hline
    obtain ((rfl | rfl | rfl) | hline) | rfl := hline
    · trivial
    · trivial
    · trivial
    · exact tuned_touchLines _ _ line hline
    · trivial

/-! ## Words -/

/-- The words of a line, as the machine reads them. -/
def HostLine.words : HostLine → List (Word ℚ)
  | units => [⟨'G', (21 : ℕ)⟩]
  | distance .absolute => [⟨'G', (90 : ℕ)⟩]
  | distance .incremental => [⟨'G', (91 : ℕ)⟩]
  | height z => [⟨'G', (53 : ℕ)⟩, ⟨'G', (0 : ℕ)⟩, ⟨'Z', printedEven 3 z⟩]
  | index angle => [⟨'G', (90 : ℕ)⟩, ⟨'G', (0 : ℕ)⟩, ⟨'A', printedEven 3 angle⟩]
  | node x y => [⟨'G', (90 : ℕ)⟩, ⟨'G', (0 : ℕ)⟩, ⟨'X', printedEven 3 x⟩, ⟨'Y', printedEven 3 y⟩]
  | settle seconds => [⟨'G', (4 : ℕ)⟩, ⟨'P', printedEven 3 seconds⟩]
  | retract axis travel => [⟨'G', (91 : ℕ)⟩, ⟨'G', (0 : ℕ)⟩, ⟨axis.letter, printedEven 3 travel⟩]
  | stroke alarms axis dir depth feed =>
    [⟨'G', (91 : ℕ)⟩, ⟨'G', if alarms then 382 / 10 else 383 / 10⟩,
      ⟨axis.letter, printedEven 3 (dir.sign * depth)⟩, ⟨'F', printedEven 0 feed⟩]
  | plunge depth feed =>
    [⟨'G', 382 / 10⟩, ⟨'Z', printedEven 3 (-depth)⟩, ⟨'F', printedEven 0 feed⟩]

theorem Axis.isUpper_letter (axis : Axis) : axis.letter.isUpper = true := by cases axis <;> rfl

theorem spells_word3 (axis : Axis) (value : ℚ) :
    Spells (word3 axis value) [⟨axis.letter, printedEven 3 value⟩] :=
  spells_fixed axis.isUpper_letter value 3

theorem spells_feedWord (feed : ℚ) : Spells (feedWord feed) [⟨'F', printedEven 0 feed⟩] := by
  refine .word (by decide) (numberText_toDigits _ _) ?_
  unfold formatWhole printedEven
  rw [parseF64_toDigits, pow_zero, mul_one]
  dsimp only
  rw [div_one]
  by_cases h : feed < 0
  · rw [decide_eq_true h, if_pos rfl, if_pos h]
  · rw [decide_eq_false h, if_neg Bool.false_ne_true, if_neg h]

theorem spells_probe (alarms : Bool) :
    Spells [' ', 'G', '3', '8', '.', probeDigit alarms]
      [⟨'G', if alarms then 382 / 10 else 383 / 10⟩] := by
  have hfixed : ∀ alarms, ['3', '8', '.', probeDigit alarms]
      = formatFixed (if alarms then 382 / 10 else 383 / 10) 1 := by decide +kernel
  have hprinted : ∀ alarms : Bool, printedEven 1 (if alarms then 382 / 10 else 383 / 10)
      = if alarms then 382 / 10 else 383 / 10 := by decide +kernel
  have h := @spells_fixed 'G' (by decide) (if alarms then 382 / 10 else 383 / 10) 1
  rw [hprinted, ← hfixed] at h
  exact h

/-- A minus sign before a length. -/
theorem minus_formatFixed {depth : ℚ} (hdepth : 0 < depth) (count : ℕ) :
    '-' :: formatFixed depth count = formatFixed (-depth) count := by
  unfold formatFixed
  rw [decide_eq_false hdepth.not_gt, decide_eq_true (neg_lt_zero.2 hdepth), neg_mul, abs_neg]
  rfl

/-- **The machine reads the words of a line.** -/
theorem HostLine.words_text {line : HostLine} (h : line.Tuned) :
    Lexer.words (utf8 line.text) = line.words.map .ok := by
  have hcode : ∀ n, Spells (' ' :: 'G' :: Nat.toDigits 10 n) [⟨'G', (n : ℕ)⟩] :=
    @spells_code 'G' (by decide)
  cases line with
  | units => exact (hcode 21).words_tail
  | distance mode =>
    cases mode with
    | absolute => exact (hcode 90).words_tail
    | incremental => exact (hcode 91).words_tail
  | height z => exact (((hcode 53).append (hcode 0)).append (spells_word3 .z z)).words_tail
  | index angle => exact (((hcode 90).append (hcode 0)).append (spells_word3 .a angle)).words_tail
  | node x y =>
    exact ((((hcode 90).append (hcode 0)).append (spells_word3 .x x)).append
      (spells_word3 .y y)).words_tail
  | settle seconds =>
    exact ((hcode 4).append (@spells_fixed 'P' (by decide) seconds 3)).words_tail
  | retract axis travel =>
    exact (((hcode 91).append (hcode 0)).append (spells_word3 axis travel)).words_tail
  | stroke alarms axis dir depth feed =>
    exact ((((hcode 91).append (spells_probe alarms)).append (spells_word3 axis _)).append
      (spells_feedWord feed)).words_tail
  | plunge depth feed =>
    have htext : (plunge depth feed).text
        = ['G', '3', '8', '.', '2'] ++ word3 .z (-depth) ++ feedWord feed := by
      unfold text word3
      rw [← minus_formatFixed h.1]
      rfl
    rw [htext]
    exact (((spells_probe true).append (spells_word3 .z _)).append (spells_feedWord feed)).words_tail

/-! ## One line -/

namespace HostLine

/-- The line is not refused for the feed mode, or for its axis. -/
def accepted (mode : FeedMode) : HostLine → Bool
  | stroke _ axis _ _ _ => decide (axis ≠ .a) && decide (mode = .unitsPerMin)
  | plunge _ _ => decide (mode = .unitsPerMin)
  | _ => true

/-- The distance mode that the line sets. -/
def sets : HostLine → Option DistanceMode
  | distance mode => some mode
  | index _ | node _ _ => some .absolute
  | retract _ _ | stroke _ _ _ _ _ => some .incremental
  | units | height _ | settle _ | plunge _ _ => none

/-- The line is a move, and is not begun if it would leave the travel. -/
def moves : HostLine → Bool
  | height _ | index _ | node _ _ | retract _ _ => true
  | _ => false

/-- A failure of the line locks the machine. -/
def failureLocks : HostLine → Bool
  | stroke alarms _ _ _ _ => alarms
  | plunge _ _ => true
  | line => line.moves

/-- The modes behind the line. -/
def next (m : ModalState ℚ) : HostLine → ModalState ℚ
  | units => { m with units := .millimeter }
  | distance mode => { m with distance := mode }
  | height _ => { m with motion := .rapid }
  | index _ | node _ _ => { m with distance := .absolute, motion := .rapid }
  | settle _ => m
  | retract _ _ => { m with distance := .incremental, motion := .rapid }
  | stroke _ _ _ _ feed => { m with distance := .incremental, feed := printedEven 0 feed }
  | plunge _ feed => { m with feed := printedEven 0 feed }

/-- The axis words of the line. -/
def axes : HostLine → AxisWords ℚ
  | height z => AxisWords.none.set .z (printedEven 3 z)
  | index angle => AxisWords.none.set .a (printedEven 3 angle)
  | node x y => (AxisWords.none.set .x (printedEven 3 x)).set .y (printedEven 3 y)
  | retract axis travel => AxisWords.none.set axis (printedEven 3 travel)
  | stroke _ axis dir depth _ => AxisWords.none.set axis (printedEven 3 (dir.sign * depth))
  | plunge depth _ => AxisWords.none.set .z (printedEven 3 (-depth))
  | units | distance _ | settle _ => .none

/-- What the line asks for, with the modes behind it. -/
def command (m : ModalState ℚ) (line : HostLine) : Option (PlannerCommand ℚ) :=
  match line with
  | units | distance _ => none
  | settle seconds => some (.dwell (printedEven 3 seconds))
  | height _ => some (.move true line.axes m.units m.distance m.feed m.feedMode true)
  | index _ | node _ _ | retract _ _ =>
    some (.move true line.axes m.units m.distance m.feed m.feedMode false)
  | stroke alarms _ _ _ _ => some (.probe ⟨true, alarms⟩ line.axes m.units m.distance m.feed)
  | plunge _ _ => some (.probe .g38_2 line.axes m.units m.distance m.feed)

end HostLine

section Words

variable {s s' : LineState ℚ} {rest : List (Except GcodeError (Word ℚ))}

theorem applyWords_code {n : ℕ} (hn : n ≤ 255) (h : s.applyWholeGWord n = .ok s') :
    s.applyWords (.ok ⟨'G', (n : ℕ)⟩ :: rest) = s'.applyWords rest := by
  rw [LineState.applyWords, applyWord_G s hn, h]

theorem fractionalCode_probe (alarms : Bool) :
    fractionalCode (if alarms then 382 / 10 else 383 / 10 : ℚ)
      = some (if alarms then 382 else 383) := by
  revert alarms
  decide +kernel

theorem applyWords_probe (alarms : Bool) (h : s.guard .motion = false) :
    s.applyWords (.ok ⟨'G', if alarms then 382 / 10 else 383 / 10⟩ :: rest)
      = LineState.applyWords ((s.use .motion).fold
        fun acc => { acc with pendingProbe := some ⟨true, alarms⟩ }) rest := by
  have hword : s.applyWord ⟨'G', if alarms then 382 / 10 else 383 / 10⟩
      = .ok ((s.use .motion).fold fun acc => { acc with pendingProbe := some ⟨true, alarms⟩ }) := by
    have hfraction : s.applyWord ⟨'G', if alarms then 382 / 10 else 383 / 10⟩
        = s.applyFractionalGWord (if alarms then 382 else 383) := by
      show s.applyGWord _ = _
      unfold LineState.applyGWord
      rw [fractionalCode_probe]
    have hclaim : s.applyFractionalGWord (if alarms then 382 else 383)
        = s.claim .motion fun s =>
          s.fold fun acc => { acc with pendingProbe := some ⟨true, alarms⟩ } := by
      cases alarms <;> rfl
    rw [hfraction, hclaim]
    unfold LineState.claim
    rw [h, if_neg Bool.false_ne_true]
    rfl
  rw [LineState.applyWords, hword]

theorem applyWords_axis (axis : Axis) (value : ℚ) :
    s.applyWords (.ok ⟨axis.letter, value⟩ :: rest)
      = LineState.applyWords { s with acc := { s.acc with axes := s.acc.axes.set axis value } }
        rest := by
  rw [LineState.applyWords, LineState.applyWord_axis]

theorem applyWords_feed (value : ℚ) :
    s.applyWords (.ok ⟨'F', value⟩ :: rest) = LineState.applyWords ((s.modal fun m =>
      { m with feed := value }).fold fun acc => { acc with sawFeed := true }) rest := rfl

theorem parseLine_of_emit {m : ModalState ℚ} {bytes : List UInt8}
    {command : Option (PlannerCommand ℚ)}
    (hwords : (LineState.start m).applyWords (Lexer.words bytes) = .ok s)
    (haxes : (s.acc.pendingProbe.isSome && !s.acc.axes.any) = false)
    (hemit : emit s.acc s.next m.wcs = .ok command) : parseLine m bytes = (.ok command, s.next) := by
  unfold parseLine
  rw [hwords]
  dsimp only
  rw [haxes, if_neg Bool.false_ne_true, hemit]

theorem parseLine_of_emit_error {m : ModalState ℚ} {bytes : List UInt8} {e : GcodeError}
    (hwords : (LineState.start m).applyWords (Lexer.words bytes) = .ok s)
    (haxes : (s.acc.pendingProbe.isSome && !s.acc.axes.any) = false)
    (hemit : emit s.acc s.next m.wcs = .error e) : parseLine m bytes = (.error e, m) := by
  unfold parseLine
  rw [hwords]
  dsimp only
  rw [haxes, if_neg Bool.false_ne_true, hemit]

/-- A probe in units per minute, of no rotary axis. -/
theorem probeCommand_eq {acc : LineAccumulator ℚ} {state : ModalState ℚ} (kind : ProbeKind)
    (haxis : acc.axes.a = none) (hmode : state.feedMode = .unitsPerMin) (hfeed : 0 < state.feed) :
    probeCommand kind acc state
      = .ok (some (.probe kind acc.axes state.units state.distance state.feed)) := by
  have hdefined : feedIsUndefined state acc.sawFeed true = false := by
    unfold feedIsUndefined
    rw [hmode, decide_eq_false hfeed.not_ge]
    rfl
  unfold probeCommand
  rw [haxis, hmode, hdefined, if_neg (by decide), if_neg (by decide), if_neg (by decide)]

/-- Any other probe is refused. -/
theorem probeCommand_error {acc : LineAccumulator ℚ} {state : ModalState ℚ} (kind : ProbeKind)
    (h : acc.axes.a.isSome = true ∨ state.feedMode ≠ .unitsPerMin) :
    ∃ e, probeCommand kind acc state = .error e := by
  unfold probeCommand
  by_cases haxis : acc.axes.a.isSome = true
  · exact ⟨_, if_pos haxis⟩
  · have hmode : state.feedMode = .inverseTime := by
      cases hfeedMode : state.feedMode with
      | unitsPerMin => exact absurd hfeedMode (h.resolve_left haxis)
      | inverseTime => rfl
    rw [if_neg haxis, if_pos hmode]
    exact ⟨_, rfl⟩

end Words

namespace HostLine

variable {line : HostLine} {m : ModalState ℚ}

theorem printedEven_zero_pos {feed : ℚ} (h : 1 ≤ feed) : 0 < printedEven 0 feed := by
  have hclose := abs_le.1 (abs_printedEven_sub_le 0 feed)
  rw [pow_zero, div_one] at hclose
  linarith [hclose.1]

/-- A line as far as it is folded. -/
def folded (m : ModalState ℚ) (line : HostLine) (guard : GroupGuard)
    (f : LineAccumulator ℚ → LineAccumulator ℚ) : LineState ℚ :=
  ⟨guard, f { LineAccumulator.empty with axes := line.axes }, line.next m⟩

/-- The words of a probe. -/
theorem applyWords_stroke (m : ModalState ℚ) (alarms : Bool) (axis : Axis) (dir : Dir)
    (depth feed : ℚ) :
    ∃ guard, (LineState.start m).applyWords ((stroke alarms axis dir depth feed).words.map .ok)
      = .ok ((stroke alarms axis dir depth feed).folded m guard fun acc =>
        { acc with pendingProbe := some ⟨true, alarms⟩, sawFeed := true }) :=
  ⟨_, (applyWords_code (by norm_num) rfl).trans ((applyWords_probe alarms rfl).trans
    ((applyWords_axis axis _).trans (applyWords_feed _)))⟩

/-- The words of a plunge. -/
theorem applyWords_plunge (m : ModalState ℚ) (depth feed : ℚ) :
    ∃ guard, (LineState.start m).applyWords ((plunge depth feed).words.map .ok)
      = .ok ((plunge depth feed).folded m guard fun acc =>
        { acc with pendingProbe := some .g38_2, sawFeed := true }) :=
  ⟨_, (applyWords_probe true rfl).trans ((applyWords_axis .z _).trans (applyWords_feed _))⟩

/-- **What the machine makes of a line.** -/
theorem parseLine_text (h : line.Tuned) (haccepted : line.accepted m.feedMode = true) :
    parseLine m (utf8 line.text) = (.ok (line.command (line.next m)), line.next m) := by
  have hread : (LineState.start m).applyWords (Lexer.words (utf8 line.text))
      = (LineState.start m).applyWords (line.words.map .ok) := by rw [words_text h]
  cases line with
  | units => exact parseLine_of_emit (hread.trans (applyWords_code (by norm_num) rfl)) rfl rfl
  | distance mode =>
    cases mode <;>
      exact parseLine_of_emit (hread.trans (applyWords_code (by norm_num) rfl)) rfl rfl
  | height z =>
    exact parseLine_of_emit (hread.trans ((applyWords_code (by norm_num) rfl).trans
      ((applyWords_code (by norm_num) rfl).trans (applyWords_axis .z _)))) rfl rfl
  | index angle =>
    exact parseLine_of_emit (hread.trans ((applyWords_code (by norm_num) rfl).trans
      ((applyWords_code (by norm_num) rfl).trans (applyWords_axis .a _)))) rfl rfl
  | node x y =>
    exact parseLine_of_emit (hread.trans ((applyWords_code (by norm_num) rfl).trans
      ((applyWords_code (by norm_num) rfl).trans
        ((applyWords_axis .x _).trans (applyWords_axis .y _))))) rfl rfl
  | settle seconds =>
    exact parseLine_of_emit (hread.trans (applyWords_code (by norm_num) rfl)) rfl rfl
  | retract axis travel =>
    have hwords := hread.trans ((applyWords_code (by norm_num) rfl).trans
      ((applyWords_code (by norm_num) rfl).trans (applyWords_axis axis _)))
    cases axis <;> exact parseLine_of_emit hwords rfl rfl
  | stroke alarms axis dir depth feed =>
    obtain ⟨haxis, hmode⟩ := Bool.and_eq_true_iff.1 haccepted
    obtain ⟨guard, hwords⟩ := applyWords_stroke m alarms axis dir depth feed
    rw [← words_text h] at hwords
    refine parseLine_of_emit hwords (by cases axis <;> rfl) ?_
    refine probeCommand_eq ⟨true, alarms⟩ ?_ (of_decide_eq_true hmode) (printedEven_zero_pos h.2)
    cases axis with
    | a => exact absurd rfl (of_decide_eq_true haxis)
    | _ => rfl
  | plunge depth feed =>
    obtain ⟨guard, hwords⟩ := applyWords_plunge m depth feed
    rw [← words_text h] at hwords
    refine parseLine_of_emit hwords rfl ?_
    exact @probeCommand_eq { LineAccumulator.empty with
        pendingProbe := some .g38_2, sawFeed := true, axes := (plunge depth feed).axes }
      ((plunge depth feed).next m) .g38_2 rfl (of_decide_eq_true haccepted)
      (printedEven_zero_pos h.2)

/-- A line that is refused leaves the modes as they were. -/
theorem parseLine_text_error (h : line.Tuned) (haccepted : line.accepted m.feedMode = false) :
    ∃ e, parseLine m (utf8 line.text) = (.error e, m) := by
  cases line with
  | stroke alarms axis dir depth feed =>
    obtain ⟨guard, hwords⟩ := applyWords_stroke m alarms axis dir depth feed
    rw [← words_text h] at hwords
    obtain ⟨e, he⟩ := @probeCommand_error { LineAccumulator.empty with
        pendingProbe := some ⟨true, alarms⟩, sawFeed := true
        axes := (stroke alarms axis dir depth feed).axes }
      ((stroke alarms axis dir depth feed).next m) ⟨true, alarms⟩ (by
        rcases Bool.and_eq_false_iff.1 haccepted with haxis | hmode
        · obtain rfl := not_not.1 (of_decide_eq_false haxis)
          exact .inl rfl
        · exact .inr (of_decide_eq_false hmode))
    exact ⟨e, parseLine_of_emit_error hwords (by cases axis <;> rfl) he⟩
  | plunge depth feed =>
    obtain ⟨guard, hwords⟩ := applyWords_plunge m depth feed
    rw [← words_text h] at hwords
    obtain ⟨e, he⟩ := @probeCommand_error { LineAccumulator.empty with
        pendingProbe := some .g38_2, sawFeed := true, axes := (plunge depth feed).axes }
      ((plunge depth feed).next m) .g38_2 (.inr (of_decide_eq_false haccepted))
    exact ⟨e, parseLine_of_emit_error hwords rfl he⟩
  | _ => cases haccepted

end HostLine

end Galdr.Host
