import Galdr.Deque
import Galdr.Gcode

/-!
# The motion planner: blocks and look-ahead

The planner turns targets in steps into *blocks*, straight moves with the
kinematics the segment generator needs, and keeps them in a queue. A block is
built from the step difference to its target: its length and direction in
millimetres, the acceleration and the cruise speed its axes allow, and the
greatest speed the corner with the previous block admits. Two passes over the
queue then settle the entry speeds.

Speeds are kept squared, in (mm/s)². Step counts and positions are 32-bit: a
target comes from a saturating cast, and the difference of two targets wraps.
A function that may fail returns its result beside the planner it leaves.
-/

namespace Galdr

/-- A value for each axis, in the order X, Y, Z, A. -/
abbrev Axes (T : Type) : Type := Fin 4 → T

/-- The rotary axis. -/
def aAxis : Fin 4 := 3

/-- The linear axes. -/
def xAxis : Fin 4 := 0

@[inherit_doc xAxis] def yAxis : Fin 4 := 1

@[inherit_doc xAxis] def zAxis : Fin 4 := 2

/-- The capacity of the block queue. -/
def blockQueueLen : ℕ := 32

/-- The errors of the planner. -/
inductive PlannerError
  /-- The queue is full; try again when a block has been taken. -/
  | queueFull
  /-- An arc without centre offsets or without radius. -/
  | invalidArc
  /-- A jog leaves the travel envelope. -/
  | jogExceedsTravel
  /-- A program move leaves the travel envelope. -/
  | moveExceedsTravel
  deriving DecidableEq, Repr

/-- The status code of an error. -/
def PlannerError.code : PlannerError → UInt8
  | queueFull => 1
  | invalidArc => 33
  | jogExceedsTravel => 15
  | moveExceedsTravel => 15

section Numbers

variable {K : Type} [Field K] [LinearOrder K]

/-- Millimetres in an inch. -/
def mmPerInch : K := 254 / 10

/-- Lengths below this carry no motion. -/
def lengthEpsilonMm : K := 1 / 1000000

/-- The margin at the two ends of the junction cosine. -/
def junctionReversalEpsilon : K := 1 / 1000000

/-- The factor from a unit to millimetres. -/
def unitsScale : Units → K
  | .millimeter => 1
  | .inch => mmPerInch

/-- The step count nearest to a position. -/
def mmToSteps [FloorRing K] (posMm stepsPerMm : K) : Int32 :=
  roundToI32 (posMm * stepsPerMm)

/-- `f32::min` of a limit that may be `f32::INFINITY` and a number. -/
def capBy (limit : WithTop K) (x : K) : K :=
  match limit with
  | ⊤ => x
  | (l : K) => min l x

end Numbers

/-- The travel envelope: `[-maxTravelMm, 0]` on each axis. -/
structure SoftLimits (K : Type) where
  /-- The travel of each axis. -/
  maxTravelMm : Axes K

/-- The settings the planner works from. The settings store only ever hands out
values in these ranges, and the configuration carries them. -/
structure PlannerConfig (K : Type) [Field K] [LinearOrder K] where
  /-- Steps per millimetre, `$100` to `$103`. -/
  stepsPerMm : Axes K
  /-- The greatest rate of each axis in mm/min, `$110` to `$113`. -/
  maxRateMmMin : Axes K
  /-- The acceleration of each axis in mm/s², `$120` to `$123`. -/
  accelMmS2 : Axes K
  /-- The junction deviation, `$11`. -/
  junctionDeviationMm : K
  /-- The chord tolerance of arcs, `$12`. -/
  arcToleranceMm : K
  /-- The axes that are angular, `$376`. -/
  rotaryMask : UInt8
  /-- Every axis has steps. -/
  stepsPerMm_pos : ∀ axis, 0 < stepsPerMm axis
  /-- Every axis can move. -/
  maxRateMmMin_pos : ∀ axis, 0 < maxRateMmMin axis
  /-- Every axis can accelerate. -/
  accelMmS2_pos : ∀ axis, 0 < accelMmS2 axis
  /-- The deviation is a length. -/
  junctionDeviationMm_nonneg : 0 ≤ junctionDeviationMm
  /-- The tolerance is positive. -/
  arcToleranceMm_pos : 0 < arcToleranceMm

/-- The bit of an axis in a rotary mask is set. -/
def rotaryBit (mask : UInt8) (axis : Fin 4) : Bool :=
  mask &&& (1 <<< UInt8.ofNat axis) != 0

/-- The axis is angular. -/
def PlannerConfig.isRotary {K : Type} [Field K] [LinearOrder K]
    (config : PlannerConfig K) (axis : Fin 4) : Bool :=
  rotaryBit config.rotaryMask axis

/-- One planned straight move. -/
structure Block (K : Type) where
  /-- The signed step difference of each axis. -/
  steps : Axes Int32
  /-- The step count of the dominant axis. -/
  stepEventCount : ℕ
  /-- The direction in millimetres. -/
  unitVec : Axes K
  /-- The length. -/
  millimeters : K
  /-- The acceleration along the direction. -/
  acceleration : K
  /-- The cruise speed. -/
  nominalSpeedSq : K
  /-- The greatest entry speed. -/
  maxEntrySpeedSq : K
  /-- The planned entry speed. -/
  entrySpeedSq : K
  /-- A `G0` move. -/
  rapid : Bool
  /-- A `$J=` jog. -/
  jog : Bool
  deriving DecidableEq

/-- The dominant step count of a move: the greatest magnitude over the axes. -/
def dominantSteps (steps : Axes Int32) : ℕ :=
  Finset.univ.sup fun axis => (steps axis).toInt.natAbs

namespace Block

variable {K : Type}

/-- A block for the paths that walk at a fixed period and ignore the speeds. -/
def placeholder [Zero K] [One K] (steps : Axes Int32) : Block K where
  steps := steps
  stepEventCount := dominantSteps steps
  unitVec := fun _ => 0
  millimeters := 1
  acceleration := 1
  nominalSpeedSq := 1
  maxEntrySpeedSq := 1
  entrySpeedSq := 0
  rapid := false
  jog := false

/-- The block with another entry speed. -/
def withEntry (block : Block K) (entrySpeedSq : K) : Block K :=
  { block with entrySpeedSq := entrySpeedSq }

@[simp] theorem withEntry_entrySpeedSq (b : Block K) (e : K) :
    (b.withEntry e).entrySpeedSq = e := rfl

@[simp] theorem withEntry_withEntry (b : Block K) (e e' : K) :
    (b.withEntry e).withEntry e' = b.withEntry e' := rfl

end Block

/-- The axes of a plane: the two the arc turns in, and the one left over. -/
structure PlaneAxes where
  /-- The axis of the cosine. -/
  p0 : Fin 4
  /-- The axis of the sine. -/
  p1 : Fin 4
  /-- The axis the helix advances along. -/
  normal : Fin 4
  deriving DecidableEq

/-- An arc that is being fed into the queue. -/
structure ArcInProgress (K : Type) where
  /-- The axes of its plane. -/
  plane : PlaneAxes
  /-- The centre, in the plane. -/
  center : K × K
  /-- The radius. -/
  radius : K
  /-- The angle of the start. -/
  thetaStart : K
  /-- The signed angle of one segment. -/
  thetaStep : K
  /-- The number of segments. -/
  segments : ℕ
  /-- The next segment to feed, counted from one. -/
  nextSeg : ℕ
  /-- The normal coordinate at the start. -/
  normalStart : K
  /-- The travel along the normal. -/
  normalDelta : K
  /-- The rotary coordinate at the start. -/
  aStart : K
  /-- The travel of the rotary axis. -/
  aDelta : K
  /-- The feed of each segment. -/
  segFeed : K
  /-- The units of the feed. -/
  units : Units
  /-- The mode of the feed. -/
  feedMode : FeedMode
  deriving DecidableEq

/-- The motion planner. -/
structure Planner (K : Type) [Field K] [LinearOrder K] where
  /-- The settings. -/
  config : PlannerConfig K
  /-- The planned blocks. -/
  queue : Deque (Block K) blockQueueLen
  /-- The commanded machine position. -/
  positionSteps : Axes Int32
  /-- The work coordinate offset. -/
  workOffsetMm : Axes K
  /-- The direction of the newest block, zero when there is none to corner with. -/
  prevUnitVec : Axes K
  /-- The cruise speed of the newest block. -/
  prevNominalSpeedSq : K
  /-- The executor has committed to the entry of the oldest block. -/
  headBusy : Bool
  /-- The arc being fed. -/
  arcInProgress : Option (ArcInProgress K)
  /-- A step subtraction left the 32-bit range. The program has no such field: a
  debug build would have stopped there, and a release build wraps. -/
  overflow : Bool

namespace Planner

variable {K : Type} [Field K] [LinearOrder K]

/-- A planner at rest at step position zero. -/
def new (config : PlannerConfig K) : Planner K where
  config := config
  queue := .new
  positionSteps := fun _ => 0
  workOffsetMm := fun _ => 0
  prevUnitVec := fun _ => 0
  prevNominalSpeedSq := 0
  headBusy := false
  arcInProgress := none
  overflow := false

/-- The blocks in the queue, oldest first. -/
abbrev blocks (p : Planner K) : List (Block K) := p.queue.toList

/-- The planner without a block to corner with: the next one starts from rest. -/
def flushLookahead (p : Planner K) : Planner K :=
  { p with prevUnitVec := fun _ => 0, prevNominalSpeedSq := 0 }

/-- Put the commanded position where the machine really stopped. -/
def syncPosition (p : Planner K) (steps : Axes Int32) : Planner K :=
  { p.flushLookahead with positionSteps := steps }

/-- Put new settings in force. -/
def setConfig (p : Planner K) (config : PlannerConfig K) : Planner K :=
  { p.flushLookahead with config := config }

/-- Set the work coordinate offset; a component that is not finite (`none`) is
ignored. -/
def setWorkOffset (p : Planner K) (wco : Axes (Option K)) : Planner K :=
  { p with workOffsetMm := fun axis => (wco axis).getD (p.workOffsetMm axis) }

/-- The commanded position in millimetres. -/
def positionMm (p : Planner K) : Axes K := fun axis =>
  ((p.positionSteps axis).toInt : K) / p.config.stepsPerMm axis

/-- The number of queued blocks. -/
def queuedLen (p : Planner K) : ℕ := p.queue.len

/-- Take the oldest block. What is then the oldest is committed. -/
def popBlock (p : Planner K) : Option (Block K × Planner K) :=
  p.queue.popFront.map fun (block, rest) =>
    (block, { p with queue := rest, headBusy := !rest.isEmpty })

/-- The oldest block. -/
def peekBlock (p : Planner K) : Option (Block K) := p.queue.front

/-- Drop the jog blocks at the end of the queue. -/
def flushJogBlocks (p : Planner K) : Planner K :=
  { p.flushLookahead with queue := p.queue.dropBackWhile Block.jog }

/-- Drop every block. -/
def flushQueue (p : Planner K) : Planner K :=
  { p.flushLookahead with queue := .new }

/-! ## Building a block -/

/-- Every component of a vector is effectively zero. -/
def isZeroVec (vec : Axes K) : Prop := ∀ axis, |vec axis| < lengthEpsilonMm

instance (vec : Axes K) : Decidable (isZeroVec vec) :=
  inferInstanceAs (Decidable (∀ _, _))

/-- The tightest limit along a direction: the largest quantity whose component
on no axis exceeds that axis's limit. Axes with a near-zero component impose
none. -/
def tightest (unitVec limits : Axes K) : WithTop K :=
  (Finset.univ.filter fun axis => lengthEpsilonMm < |unitVec axis|).inf fun axis =>
    ((limits axis / |unitVec axis| : K) : WithTop K)

/-- The acceleration the axes allow along a direction. -/
def limitingAcceleration (unitVec accelMmS2 : Axes K) : WithTop K :=
  tightest unitVec accelMmS2

/-- The speed in mm/s the axes allow along a direction. -/
def axisRateLimitMmS (config : PlannerConfig K) (unitVec : Axes K) : WithTop K :=
  tightest unitVec fun axis => config.maxRateMmMin axis / 60

/-- The cruise speed of a block. -/
def nominalSpeedMmS (config : PlannerConfig K) (feed : K) (units : Units)
    (feedMode : FeedMode) (rapid : Bool) (millimeters : K) (unitVec : Axes K) : K :=
  let axisRateLimit := axisRateLimitMmS config unitVec
  if rapid then
    -- `f32::INFINITY` arises for the zero direction only, which no block has.
    axisRateLimit.untopD 0
  else
    let requestedMmS := match feedMode with
      | .unitsPerMin => feed * unitsScale units / 60
      | .inverseTime => millimeters * feed / 60
    max (capBy axisRateLimit requestedMmS) 0

variable [Libm K]

/-- The feed and feed mode a feed move is planned with: a units-per-minute move
on linear and rotary axes at once becomes inverse-time, so that the feed
governs the linear leg. -/
def resolveFeed (config : PlannerConfig K) (feed : K) (feedMode : FeedMode)
    (units : Units) (deltaMm : Axes K) : K × FeedMode :=
  if feedMode ≠ .unitsPerMin then (feed, feedMode)
  else
    let linearLen := sqrtf (∑ axis,
      if config.isRotary axis then 0 else deltaMm axis * deltaMm axis)
    let rotaryLen := sqrtf (∑ axis,
      if config.isRotary axis then deltaMm axis * deltaMm axis else 0)
    if lengthEpsilonMm < linearLen ∧ lengthEpsilonMm < rotaryLen then
      (feed * unitsScale units / linearLen, .inverseTime)
    else (feed, feedMode)

/-- The greatest squared speed at the corner between the newest block and a new
one. -/
def junctionSpeedSq (p : Planner K) (unitVec : Axes K) (acceleration : K) :
    WithTop K :=
  if isZeroVec p.prevUnitVec then ((0 : K) : WithTop K)
  else
    let dot := ∑ axis, p.prevUnitVec axis * unitVec axis
    let cosTheta := -dot
    if 1 - junctionReversalEpsilon ≤ cosTheta then ((0 : K) : WithTop K)
    else
      let sinHalf := sqrtf (max ((1 - cosTheta) * (1 / 2)) 0)
      if sinHalf ≤ junctionReversalEpsilon then ⊤
      else if 1 - sinHalf = 0 then
        -- The division is by zero and the radius infinite or, for a zero
        -- deviation, not a number; `f32::min` then returns its other operand.
        ((p.prevNominalSpeedSq : K) : WithTop K)
      else
        let radius := p.config.junctionDeviationMm * sinHalf / (1 - sinHalf)
        ((min (acceleration * radius) p.prevNominalSpeedSq : K) : WithTop K)

/-- The step difference from the commanded position to a target. -/
def stepDelta (p : Planner K) (target : Axes Int32) : Axes Int32 :=
  fun axis => target axis - p.positionSteps axis

/-- A step difference in millimetres. -/
def deltaMm (config : PlannerConfig K) (steps : Axes Int32) : Axes K :=
  fun axis => ((steps axis).toInt : K) / config.stepsPerMm axis

/-- The length of a step difference. -/
def lengthMm (config : PlannerConfig K) (steps : Axes Int32) : K :=
  sqrtf (∑ axis, deltaMm config steps axis * deltaMm config steps axis)

/-- Build the block from the commanded position to a target, or nothing for a
move without length. -/
def buildBlock (p : Planner K) (target : Axes Int32) (feed : K) (units : Units)
    (feedMode : FeedMode) (rapid jog : Bool) : Option (Block K) :=
  let steps := p.stepDelta target
  let stepEventCount := dominantSteps steps
  let delta := deltaMm p.config steps
  let millimeters := lengthMm p.config steps
  if millimeters < lengthEpsilonMm ∨ stepEventCount = 0 then none
  else
    let invMm := 1 / millimeters
    let unitVec : Axes K := fun axis => delta axis * invMm
    let (effectiveFeed, effectiveFeedMode) :=
      if rapid then (feed, feedMode) else resolveFeed p.config feed feedMode units delta
    -- `f32::INFINITY` arises for the zero direction only, which no block has.
    let acceleration := (limitingAcceleration unitVec p.config.accelMmS2).untopD 0
    let nominalSpeed := nominalSpeedMmS p.config effectiveFeed units
      effectiveFeedMode rapid millimeters unitVec
    let nominalSpeedSq := nominalSpeed * nominalSpeed
    let maxEntrySpeedSq := capBy (p.junctionSpeedSq unitVec acceleration) nominalSpeedSq
    some {
      steps, stepEventCount, unitVec, millimeters, acceleration, nominalSpeedSq,
      maxEntrySpeedSq, entrySpeedSq := maxEntrySpeedSq, rapid, jog }

/-- A step subtraction of `buildBlock` leaves the 32-bit range. -/
def deltaOverflows (p : Planner K) (target : Axes Int32) : Bool :=
  decide (∃ axis, ¬SubFits (target axis) (p.positionSteps axis))

/-- Append a block. -/
def enqueue (p : Planner K) (block : Block K) : Except PlannerError Unit × Planner K :=
  match p.queue.pushBack block with
  | some queue => (.ok (), { p with queue })
  | none => (.error .queueFull, p)

/-- Build one straight move and append it, without settling the entry speeds.
The count is of the blocks appended, one or none. -/
def enqueueMove (p : Planner K) (target : Axes Int32) (feed : K) (units : Units)
    (feedMode : FeedMode) (rapid jog : Bool) :
    Except PlannerError ℕ × Planner K :=
  let noted := { p with overflow := p.overflow || p.deltaOverflows target }
  match p.buildBlock target feed units feedMode rapid jog with
  | none => (.ok 0, noted)
  | some block =>
    match noted.enqueue block with
    | (.error e, p') => (.error e, p')
    | (.ok (), p') =>
      (.ok 1, { p' with
        positionSteps := target
        prevUnitVec := block.unitVec
        prevNominalSpeedSq := block.nominalSpeedSq })

/-! ## The two passes -/

/-- The entry speed of the first block of a list, or zero at its end. -/
def nextEntrySq : List (Block K) → K
  | [] => 0
  | block :: _ => block.entrySpeedSq

/-- The reverse pass over blocks none of which is committed: newest first, each
entry becomes the lesser of its cap and what the block can shed before the next
entry. -/
def reversePassFree : List (Block K) → List (Block K)
  | [] => []
  | block :: rest =>
    let rest := reversePassFree rest
    let reachable := nextEntrySq rest + 2 * block.acceleration * block.millimeters
    block.withEntry (min block.maxEntrySpeedSq reachable) :: rest

/-- The reverse pass. The oldest block is visited last, and left as it is when
the executor has committed to it. -/
def reversePass (headBusy : Bool) : List (Block K) → List (Block K)
  | [] => []
  | block :: rest =>
    if headBusy then block :: reversePassFree rest else reversePassFree (block :: rest)

/-- The forward pass with the entry speed reachable from the block before. -/
def forwardPassFrom : K → List (Block K) → List (Block K)
  | _, [] => []
  | reachable, block :: rest =>
    let block := if reachable < block.entrySpeedSq then block.withEntry reachable else block
    block :: forwardPassFrom
      (block.entrySpeedSq + 2 * block.acceleration * block.millimeters) rest

/-- The forward pass. -/
def forwardPass : List (Block K) → List (Block K)
  | [] => []
  | block :: rest =>
    block :: forwardPassFrom
      (block.entrySpeedSq + 2 * block.acceleration * block.millimeters) rest

omit [Libm K] in
theorem length_reversePassFree (q : List (Block K)) :
    (reversePassFree q).length = q.length := by
  induction q with
  | nil => rfl
  | cons block rest ih => simp [reversePassFree, ih]

omit [Libm K] in
theorem length_reversePass (headBusy : Bool) (q : List (Block K)) :
    (reversePass headBusy q).length = q.length := by
  cases q with
  | nil => rfl
  | cons block rest => cases headBusy <;> simp [reversePass, length_reversePassFree]

omit [Libm K] in
theorem length_forwardPassFrom (reachable : K) (q : List (Block K)) :
    (forwardPassFrom reachable q).length = q.length := by
  induction q generalizing reachable with
  | nil => rfl
  | cons block rest ih => simp [forwardPassFrom, ih]

omit [Libm K] in
theorem length_forwardPass (q : List (Block K)) :
    (forwardPass q).length = q.length := by
  cases q with
  | nil => rfl
  | cons block rest => simp [forwardPass, length_forwardPassFrom]

/-- Settle the entry speeds of the queue. -/
def recalculate (p : Planner K) : Planner K :=
  { p with
    queue := (p.queue.rewrite (reversePass p.headBusy)
      (length_reversePass p.headBusy)).rewrite forwardPass length_forwardPass }

/-- Plan one straight move: build it, append it, and settle the queue. -/
def planLine (p : Planner K) (target : Axes Int32) (feed : K) (units : Units)
    (feedMode : FeedMode) (rapid : Bool) : Except PlannerError ℕ × Planner K :=
  match p.enqueueMove target feed units feedMode rapid false with
  | (.ok enqueued, p') => (.ok enqueued, if enqueued = 1 then p'.recalculate else p')
  | (.error e, p') => (.error e, p')

end Planner

end Galdr
