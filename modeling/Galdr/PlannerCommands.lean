import Galdr.Planner

/-!
# The motion planner: commands

What the planner does with each command: the words of a line become a target
in steps, the target is held against the travel envelope, and a line, an arc, a
jog or a recall of a predefined position becomes blocks in the queue. An arc
is fed in chunks: what does not fit in the queue stays behind as the arc in
progress, and is fed when the queue has room again.
-/

namespace Galdr

/-- What a command came to. -/
inductive PlannerOutcome (K : Type)
  /-- The blocks of the command are in the queue. -/
  | queued (blocks : ℕ)
  /-- Part of an arc is in the queue. -/
  | arcPending (enqueued : ℕ)
  /-- A pause from rest. -/
  | dwell (seconds : K)
  /-- A spindle command, passed through. -/
  | spindle (state : SpindleState) (speed : K)
  /-- A recall of a predefined position, for the caller to run. -/
  | goToPredefined (isG28 : Bool)
  /-- The end of the program. -/
  | programEnd
  /-- A pause of the program. -/
  | programPause (optional toolChange : Bool)
  /-- A coolant command, passed through. -/
  | coolant (state : CoolantState)
  /-- A coordinate operation, passed through. -/
  | coordinate (op : CoordinateOp K)
  /-- A probe towards a target, for the caller to run. -/
  | probe (kind : ProbeKind) (target : Axes Int32) (feed : K) (units : Units)

namespace PlaneAxes

/-- The axes of a plane. -/
def forPlane : Plane → PlaneAxes
  | .xy => ⟨xAxis, yAxis, zAxis⟩
  | .zx => ⟨zAxis, xAxis, yAxis⟩
  | .yz => ⟨yAxis, zAxis, xAxis⟩

/-- The centre offset word of an axis: I for X, J for Y, K otherwise. -/
def offsetForAxis {K : Type} (axis : Fin 4) (i j k : Option K) : Option K :=
  if axis = xAxis then i else if axis = yAxis then j else k

/-- The centre offsets in the plane; an absent word is zero. -/
def offsets {K : Type} [Zero K] (plane : PlaneAxes) (i j k : Option K) : K × K :=
  ((offsetForAxis plane.p0 i j k).getD 0, (offsetForAxis plane.p1 i j k).getD 0)

/-- One of the two centre offsets is given. -/
def hasOffset {K : Type} (plane : PlaneAxes) (i j k : Option K) : Bool :=
  (offsetForAxis plane.p0 i j k).isSome || (offsetForAxis plane.p1 i j k).isSome

end PlaneAxes

section Arcs

variable {K : Type} [Field K] [LinearOrder K] [Libm K]

/-- The signed angle from the start radius to the end radius; a full circle when
they agree. -/
def arcSweepAngle (r0 r1 : K × K) (cw : Bool) : K :=
  let cross := r0.1 * r1.2 - r0.2 * r1.1
  let dot := r0.1 * r1.1 + r0.2 * r1.2
  let angle := atan2f cross dot
  if cw then
    if 0 ≤ angle then angle - 2 * Libm.pi else angle
  else
    if angle ≤ 0 then angle + 2 * Libm.pi else angle

/-- The number of chords that keep an arc within the tolerance. -/
def arcSegmentCount [FloorRing K] (radius sweep tolerance : K) : ℕ :=
  let ratio := 1 - tolerance / radius
  let maxAngle :=
    if ratio ≤ -1 then Libm.pi else if 1 ≤ ratio then f32Epsilon else acosf ratio
  let count := ⌈|sweep| / max maxAngle f32Epsilon⌉
  -- `count as u32` saturates.
  max (min count.toNat 4294967295) 1

namespace ArcInProgress

variable [FloorRing K]

/-- The end of segment `nextSeg` in millimetres: on the circle in the plane, and
its share of the way along the normal and the rotary axis. -/
def segTargetMm (arc : ArcInProgress K) : Axes K :=
  let theta := arc.thetaStart + arc.thetaStep * arc.nextSeg
  let frac := (arc.nextSeg : K) / arc.segments
  let origin : Axes K := fun _ => 0
  let onCos := Function.update origin arc.plane.p0
    (arc.center.1 + arc.radius * cosf theta)
  let onSin := Function.update onCos arc.plane.p1
    (arc.center.2 + arc.radius * sinf theta)
  let onNormal := Function.update onSin arc.plane.normal
    (arc.normalStart + arc.normalDelta * frac)
  Function.update onNormal aAxis (arc.aStart + arc.aDelta * frac)

/-- The end of segment `nextSeg` in steps. -/
def segTarget (arc : ArcInProgress K) (config : PlannerConfig K) : Axes Int32 :=
  fun axis => mmToSteps (arc.segTargetMm axis) (config.stepsPerMm axis)

omit [Libm K] [FloorRing K] in
/-- The arc past its next segment. -/
def advance (arc : ArcInProgress K) : ArcInProgress K :=
  { arc with nextSeg := arc.nextSeg + 1 }

omit [Libm K] [FloorRing K] in
/-- The segments still to feed. -/
def remaining (arc : ArcInProgress K) : ℕ := arc.segments + 1 - arc.nextSeg

end ArcInProgress

end Arcs

section SoftLimits

variable {K : Type} [Field K] [LinearOrder K] [FloorRing K]

/-- The lower travel bound of an axis in steps, before the tolerance. -/
def travelSteps (stepsPerMm maxTravelMm : Axes K) (axis : Fin 4) : Int32 :=
  mmToSteps (-maxTravelMm axis) (stepsPerMm axis)

/-- A target leaves the envelope on an axis. Rotary axes have none, and one step
of tolerance absorbs the rounding at each end. -/
def axisViolation (target : Axes Int32) (stepsPerMm maxTravelMm : Axes K)
    (rotaryMask : UInt8) (axis : Fin 4) : Bool :=
  !rotaryBit rotaryMask axis &&
    (target axis < travelSteps stepsPerMm maxTravelMm axis - 1 || 1 < target axis)

/-- A target leaves the travel envelope on some axis. -/
def softLimitViolation (target : Axes Int32) (stepsPerMm maxTravelMm : Axes K)
    (rotaryMask : UInt8) : Bool :=
  (List.finRange 4).any (axisViolation target stepsPerMm maxTravelMm rotaryMask)

/-- The bound of some axis that the check looks at leaves the 32-bit range when
the tolerance is taken off. The check stops at the first violation. -/
def softLimitOverflows (target : Axes Int32) (stepsPerMm maxTravelMm : Axes K)
    (rotaryMask : UInt8) : List (Fin 4) → Bool
  | [] => false
  | axis :: rest =>
    (!rotaryBit rotaryMask axis && !SubFits (travelSteps stepsPerMm maxTravelMm axis) 1) ||
      (!axisViolation target stepsPerMm maxTravelMm rotaryMask axis &&
        softLimitOverflows target stepsPerMm maxTravelMm rotaryMask rest)

end SoftLimits

namespace Planner

variable {K : Type} [Field K] [LinearOrder K] [FloorRing K]

/-- The machine target of a line's words, in steps: units, distance mode and the
work offset applied, and axes without a word left where they are. -/
def resolveTarget (p : Planner K) (axes : AxisWords K) (units : Units)
    (distance : DistanceMode) (machineCoords : Bool) : Axes Int32 := fun axis =>
  match axes.word axis with
  | none => p.positionSteps axis
  | some value =>
    let scale := if p.config.isRotary axis then 1 else unitsScale units
    let valueMm := value * scale
    let machineMm := match distance with
      | .absolute => if machineCoords then valueMm else valueMm + p.workOffsetMm axis
      | .incremental => p.positionMm axis + valueMm
    mmToSteps machineMm (p.config.stepsPerMm axis)

/-- Hold a target against the envelope, when there is one. -/
def checkTravel (p : Planner K) (limits : Option (SoftLimits K))
    (target : Axes Int32) : Bool × Planner K :=
  match limits with
  | none => (false, p)
  | some limits =>
    (softLimitViolation target p.config.stepsPerMm limits.maxTravelMm
        p.config.rotaryMask,
      { p with
        overflow := p.overflow || softLimitOverflows target p.config.stepsPerMm
          limits.maxTravelMm p.config.rotaryMask (List.finRange 4) })

/-- The end of an arc in millimetres. -/
def arcEndpointMm (p : Planner K) (axes : AxisWords K) (scale : K)
    (distance : DistanceMode) (machineCoords : Bool) (start : Axes K) : Axes K :=
  fun axis =>
    match axes.word axis with
    | none => start axis
    | some value =>
      let axisScale := if p.config.isRotary axis then 1 else scale
      match distance with
      | .absolute =>
        if machineCoords then value * axisScale
        else value * axisScale + p.workOffsetMm axis
      | .incremental => start axis + value * axisScale

variable [Libm K]

/-- Feed the segments of an arc while the queue has room. The result is the arc
with its progress and the number of blocks appended. -/
def feedSegments : ℕ → ArcInProgress K → ℕ → Planner K →
    Except PlannerError (ArcInProgress K × ℕ) × Planner K
  | 0, arc, enqueued, p => (.ok (arc, enqueued), p)
  | remaining + 1, arc, enqueued, p =>
    if p.queue.len < blockQueueLen then
      match p.enqueueMove (arc.segTarget p.config) arc.segFeed arc.units
          arc.feedMode false false with
      | (.ok n, p') => feedSegments remaining arc.advance (enqueued + n) p'
      | (.error .queueFull, p') => (.ok (arc, enqueued), p')
      | (.error other, p') => (.error other, p')
    else (.ok (arc, enqueued), p)

/-- Feed the next chunk of an arc and settle the queue. -/
def enqueueArcChunk (p : Planner K) (arc : ArcInProgress K) :
    Except PlannerError (PlannerOutcome K) × Planner K :=
  match feedSegments arc.remaining arc 0 p with
  | (.error e, p') =>
    (.error e, { p' with arcInProgress := none }.recalculate)
  | (.ok (arc', enqueued), p') =>
    if arc'.segments < arc'.nextSeg then
      (.ok (.queued enqueued), { p'.recalculate with arcInProgress := none })
    else
      (.ok (.arcPending enqueued), { p'.recalculate with arcInProgress := some arc' })

/-- The arc a line asks for: its centre, radius and sweep, before its first
segment. There is none without a centre offset or a radius. -/
def arcGeometry (p : Planner K) (cw : Bool) (axes : AxisWords K) (i j k : Option K)
    (plane : Plane) (units : Units) (distance : DistanceMode) (feed : K)
    (feedMode : FeedMode) (machineCoords : Bool) : Option (ArcInProgress K) :=
  let scale := unitsScale units
  let start := p.positionMm
  let target := p.arcEndpointMm axes scale distance machineCoords start
  let plane := PlaneAxes.forPlane plane
  if !plane.hasOffset i j k then none
  else
    let off := plane.offsets i j k
    let center := (start plane.p0 + off.1 * scale, start plane.p1 + off.2 * scale)
    let r0 := (start plane.p0 - center.1, start plane.p1 - center.2)
    let r1 := (target plane.p0 - center.1, target plane.p1 - center.2)
    let radius := sqrtf (r0.1 * r0.1 + r0.2 * r0.2)
    if radius < lengthEpsilonMm then none
    else
      let sweep := arcSweepAngle r0 r1 cw
      let segments := arcSegmentCount radius sweep p.config.arcToleranceMm
      some {
        plane, center, radius, segments, units, feedMode
        thetaStart := atan2f r0.2 r0.1
        thetaStep := sweep / segments
        nextSeg := 1
        normalStart := start plane.normal
        normalDelta := target plane.normal - start plane.normal
        aStart := start aAxis
        aDelta := target aAxis - start aAxis
        segFeed := match feedMode with
          | .unitsPerMin => feed
          | .inverseTime => feed * segments }

/-- Plan an arc: find its geometry and feed its first chunk. -/
def planArc (p : Planner K) (cw : Bool) (axes : AxisWords K) (i j k : Option K)
    (plane : Plane) (units : Units) (distance : DistanceMode) (feed : K)
    (feedMode : FeedMode) (machineCoords : Bool) :
    Except PlannerError (PlannerOutcome K) × Planner K :=
  match p.arcGeometry cw axes i j k plane units distance feed feedMode
      machineCoords with
  | none => (.error .invalidArc, p)
  | some arc => p.enqueueArcChunk arc

/-- Feed more of the arc in progress, if there is one. -/
def resumeArc (p : Planner K) : Except PlannerError (PlannerOutcome K) × Planner K :=
  match p.arcInProgress with
  | none => (.ok (.queued 0), p)
  | some arc => p.enqueueArcChunk arc

omit [FloorRing K] [Libm K] in
/-- Drop the arc in progress. -/
def abortArc (p : Planner K) : Planner K := { p with arcInProgress := none }

/-- Plan one parser command under an optional travel envelope. -/
def planCommandWithLimits (p : Planner K) (command : PlannerCommand K)
    (limits : Option (SoftLimits K)) :
    Except PlannerError (PlannerOutcome K) × Planner K :=
  match command with
  | .move rapid axes units distance feed feedMode machineCoords =>
    let target := p.resolveTarget axes units distance machineCoords
    match p.checkTravel limits target with
    | (true, p) => (.error .moveExceedsTravel, p)
    | (false, p) =>
      match p.planLine target feed units feedMode rapid with
      | (.ok queued, p) => (.ok (.queued queued), p)
      | (.error e, p) => (.error e, p)
  | .arc cw axes i j k plane units distance feed feedMode machineCoords =>
    match p.checkTravel limits (p.resolveTarget axes units distance machineCoords) with
    | (true, p) => (.error .moveExceedsTravel, p)
    | (false, p) =>
      p.planArc cw axes i j k plane units distance feed feedMode machineCoords
  | .probe kind axes units distance feed =>
    (.ok (.probe kind (p.resolveTarget axes units distance false) feed units),
      p.flushLookahead)
  | .dwell seconds => (.ok (.dwell seconds), p.flushLookahead)
  | .spindle state speed => (.ok (.spindle state speed), p)
  | .goToPredefined isG28 _ _ _ => (.ok (.goToPredefined isG28), p.flushLookahead)
  | .coordinate op => (.ok (.coordinate op), p)
  | .programEnd => (.ok .programEnd, p.flushLookahead)
  | .programPause optional toolChange =>
    (.ok (.programPause optional toolChange), p.flushLookahead)
  | .coolant state => (.ok (.coolant state), p)

/-- Plan one parser command without an envelope. -/
def planCommand (p : Planner K) (command : PlannerCommand K) :
    Except PlannerError (PlannerOutcome K) × Planner K :=
  p.planCommandWithLimits command none

/-- Plan a jog into one block that a jog-cancel can drop. -/
def planJog (p : Planner K) (jog : JogCommand K) (limits : Option (SoftLimits K)) :
    Except PlannerError (PlannerOutcome K) × Planner K :=
  let target := p.resolveTarget jog.axes jog.units jog.distanceMode jog.machineCoords
  match p.checkTravel limits target with
  | (true, p) => (.error .jogExceedsTravel, p)
  | (false, p) =>
    match p.enqueueMove target jog.feed jog.units .unitsPerMin false true with
    | (.ok enqueued, p) =>
      (.ok (.queued enqueued), if enqueued = 1 then p.recalculate else p)
    | (.error e, p) => (.error e, p)

omit [Libm K] in
/-- Hold the targets of a recall against the envelope, the intermediate one
first. -/
def checkRecall (p : Planner K) (limits : Option (SoftLimits K))
    (interTarget : Option (Axes Int32)) (recallTarget : Axes Int32) :
    Bool × Planner K :=
  match interTarget with
  | none => p.checkTravel limits recallTarget
  | some target =>
    match p.checkTravel limits target with
    | (true, p) => (true, p)
    | (false, p) => p.checkTravel limits recallTarget

/-- Append the rapids of a recall. -/
def planRecall (p : Planner K) (interTarget : Option (Axes Int32))
    (recallTarget : Axes Int32) (units : Units) : Except PlannerError ℕ × Planner K :=
  match interTarget with
  | none => p.planLine recallTarget 0 units .unitsPerMin true
  | some target =>
    match p.planLine target 0 units .unitsPerMin true with
    | (.error e, p) => (.error e, p)
    | (.ok blocks, p) =>
      match p.planLine recallTarget 0 units .unitsPerMin true with
      | (.error e, p) => (.error e, p)
      | (.ok more, p) => (.ok (blocks + more), p)

omit [Libm K] in
/-- The target of the intermediate move of a recall, when the line names one. -/
def intermediateTarget (p : Planner K) (intermediate : AxisWords K) (units : Units)
    (distance : DistanceMode) : Option (Axes Int32) :=
  if intermediate.any then some (p.resolveTarget intermediate units distance false)
  else none

omit [Libm K] in
/-- The target of a recall: a machine position, without offset or scaling. -/
def recallTarget (p : Planner K) (predefined : Axes K) : Axes Int32 :=
  fun axis => mmToSteps (predefined axis) (p.config.stepsPerMm axis)

omit [FloorRing K] [Libm K] in
/-- The blocks a recall needs: one for each move that goes anywhere. -/
def blocksNeeded (start : Axes Int32) (interTarget : Option (Axes Int32))
    (recallTarget : Axes Int32) : ℕ :=
  let projected := interTarget.getD start
  (if projected = start then 0 else 1) + (if recallTarget = projected then 0 else 1)

/-- Plan the recall of a predefined machine position: a rapid to the
intermediate point, when the line names one, and a rapid to the position. Both
blocks are appended or none. -/
def planGoToPredefined (p : Planner K) (intermediate : AxisWords K) (units : Units)
    (distance : DistanceMode) (predefined : Axes K) (limits : Option (SoftLimits K)) :
    Except PlannerError ℕ × Planner K :=
  let interTarget := p.intermediateTarget intermediate units distance
  let recallTarget := p.recallTarget predefined
  match p.checkRecall limits interTarget recallTarget with
  | (true, p) => (.error .moveExceedsTravel, p)
  | (false, p) =>
    if blockQueueLen < p.queuedLen + blocksNeeded p.positionSteps interTarget recallTarget
    then (.error .queueFull, p)
    else p.planRecall interTarget recallTarget units

end Planner

end Galdr
