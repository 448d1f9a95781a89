import Galdr.Homing
import Galdr.PlannerSteps

/-!
# The homed machine and its envelope

The homing cycle and the soft limits each have a convention for zero. The envelope of
the soft limits lies below zero on every axis. An axis that is homed to its positive
end is set to a position just below zero, and all that is left of its travel lies
inside. An axis that is homed to its negative end is set to its whole travel *above*
zero, out of the envelope, and so is all it can travel from there
(`homedInside_iff`).
-/

namespace Galdr

variable {K : Type} [Field K] [LinearOrder K] [FloorRing K]

/-! ## The check of one axis -/

/-- The check of a target looks at each axis by itself. -/
theorem softLimitViolation_eq_false_iff {target : Axes Int32} {stepsPerMm maxTravelMm : Axes K}
    {rotaryMask : UInt8} :
    softLimitViolation target stepsPerMm maxTravelMm rotaryMask = false
      ↔ ∀ axis, axisViolation target stepsPerMm maxTravelMm rotaryMask axis = false := by
  unfold softLimitViolation
  rw [List.any_eq_false]
  constructor
  · intro h axis
    simpa using h axis (List.mem_finRange axis)
  · intro h axis _
    simp [h axis]

theorem axisViolation_congr {target target' : Axes Int32} {axis : Fin 4}
    (h : target axis = target' axis) (stepsPerMm maxTravelMm : Axes K) (rotaryMask : UInt8) :
    axisViolation target stepsPerMm maxTravelMm rotaryMask axis
      = axisViolation target' stepsPerMm maxTravelMm rotaryMask axis := by
  unfold axisViolation
  rw [h]

section Check

variable [IsStrictOrderedRing K]

/-- **What the check lets through.** The travel has to be one of the 32-bit range: the
bound of a greater one wraps, and nothing is below it. -/
theorem axisViolation_eq_false_iff {target : Axes Int32} {stepsPerMm maxTravelMm : Axes K}
    {rotaryMask : UInt8} {axis : Fin 4} (hbounded : rotaryBit rotaryMask axis = false)
    (htravel : 0 ≤ maxTravelMm axis * stepsPerMm axis) :
    axisViolation target stepsPerMm maxTravelMm rotaryMask axis = false
      ↔ roundf (maxTravelMm axis * stepsPerMm axis) ≤ i32Max
        ∧ -roundf (maxTravelMm axis * stepsPerMm axis) - 1 ≤ (target axis).toInt
        ∧ (target axis).toInt ≤ 1 := by
  set t := roundf (maxTravelMm axis * stepsPerMm axis) with ht
  have htnonneg : 0 ≤ t := roundf_nonneg htravel
  have hlower : (travelSteps stepsPerMm maxTravelMm axis).toInt = clampI32 (-t) := by
    show (mmToSteps _ _).toInt = _
    unfold mmToSteps
    rw [toInt_roundToI32, neg_mul, roundf_neg, ht]
  have hone : (1 : Int32).toInt = 1 := rfl
  have hx := fits_toInt (target axis)
  unfold axisViolation
  rw [hbounded, Bool.not_false, Bool.true_and, Bool.or_eq_false_iff, decide_eq_false_iff_not,
    decide_eq_false_iff_not, Int32.lt_iff_toInt_lt, Int32.lt_iff_toInt_lt, hone]
  unfold FitsI32 at hx
  by_cases hfits : t ≤ i32Max
  · have hmin : clampI32 (-t) = -t := by
      unfold clampI32
      unfold i32Min i32Max at *
      omega
    have hsub : SubFits (travelSteps stepsPerMm maxTravelMm axis) 1 := by
      unfold SubFits FitsI32
      rw [hlower, hmin, hone]
      unfold i32Min i32Max at *
      omega
    rw [toInt_sub_of_fits hsub, hlower, hmin, hone]
    omega
  · -- The bound is the least value of the range, and one below it the greatest.
    have hmin : travelSteps stepsPerMm maxTravelMm axis = -2147483648 := by
      apply Int32.toInt_inj.1
      rw [hlower]
      show clampI32 (-t) = -2147483648
      unfold clampI32
      unfold i32Min i32Max at *
      omega
    have hmax : (travelSteps stepsPerMm maxTravelMm axis - 1).toInt = i32Max := by
      rw [hmin]
      rfl
    rw [hmax]
    unfold i32Max at *
    omega

end Check

/-! ## Jogs and straight moves -/

/-- A jog, or a straight move of a line. -/
inductive StraightMove (K : Type)
  /-- `$J=`. -/
  | jog (jog : JogCommand K)
  /-- `G0` and `G1`. -/
  | line (rapid : Bool) (axes : AxisWords K) (units : Units) (distance : DistanceMode)
      (feed : K) (feedMode : FeedMode) (machineCoords : Bool)

namespace Planner

/-- Where a word puts an axis, in millimetres of the machine. -/
def wordMm (p : Planner K) (value : K) (units : Units) (distance : DistanceMode)
    (machineCoords : Bool) (axis : Fin 4) : K :=
  let valueMm := value * if p.config.isRotary axis then 1 else unitsScale units
  match distance with
  | .absolute => if machineCoords then valueMm else valueMm + p.workOffsetMm axis
  | .incremental => p.positionMm axis + valueMm

theorem resolveTarget_of_word {p : Planner K} {axes : AxisWords K} {value : K}
    {axis : Fin 4} (h : axes.word axis = some value) (units : Units)
    (distance : DistanceMode) (machineCoords : Bool) :
    p.resolveTarget axes units distance machineCoords axis
      = mmToSteps (p.wordMm value units distance machineCoords axis)
        (p.config.stepsPerMm axis) := by
  unfold resolveTarget
  rw [h]
  rfl

theorem resolveTarget_of_no_word {p : Planner K} {axes : AxisWords K} {axis : Fin 4}
    (h : axes.word axis = none) (units : Units) (distance : DistanceMode)
    (machineCoords : Bool) :
    p.resolveTarget axes units distance machineCoords axis = p.positionSteps axis := by
  unfold resolveTarget
  rw [h]

end Planner

namespace StraightMove

/-- The words of the move. -/
def axes : StraightMove K → AxisWords K
  | jog j => j.axes
  | line _ axes _ _ _ _ _ => axes

/-- The units of the words. -/
def units : StraightMove K → Units
  | jog j => j.units
  | line _ _ units _ _ _ _ => units

/-- Whether the words are distances. -/
def distance : StraightMove K → DistanceMode
  | jog j => j.distanceMode
  | line _ _ _ distance _ _ _ => distance

/-- The words are machine coordinates. -/
def machineCoords : StraightMove K → Bool
  | jog j => j.machineCoords
  | line _ _ _ _ _ _ machineCoords => machineCoords

/-- Where the move goes, in steps. -/
def target (p : Planner K) (m : StraightMove K) : Axes Int32 :=
  p.resolveTarget m.axes m.units m.distance m.machineCoords

/-- The move takes one axis some way, and no other. -/
def Shifts (p : Planner K) (m : StraightMove K) (axis : Fin 4) (way : K) : Prop :=
  ∃ value, m.axes.word axis = some value ∧ (∀ other, other ≠ axis → m.axes.word other = none)
    ∧ p.wordMm value m.units m.distance m.machineCoords axis = p.positionMm axis + way

/-- What the planner makes of the move. -/
def plan [Libm K] (p : Planner K) (limits : Option (SoftLimits K)) :
    StraightMove K → Except PlannerError (PlannerOutcome K)
  | jog j => (p.planJog j limits).1
  | line rapid axes units distance feed feedMode machineCoords =>
    (p.planCommandWithLimits
      (.move rapid axes units distance feed feedMode machineCoords) limits).1

/-- The move is planned, or has to wait for room in the queue and for nothing else. -/
def Accepted [Libm K] (p : Planner K) (limits : Option (SoftLimits K))
    (m : StraightMove K) : Prop :=
  (m.plan p limits).isOk = true
    ∨ (m.plan p limits = .error .queueFull ∧ blockQueueLen ≤ p.blocks.length)

section Accepted

omit [FloorRing K]

variable [Libm K]

/-- Appending a move fails for want of room alone. -/
theorem enqueueMove_result (p : Planner K) (target : Axes Int32) (feed : K) (units : Units)
    (feedMode : FeedMode) (rapid jog : Bool) :
    (∃ n, (p.enqueueMove target feed units feedMode rapid jog).1 = .ok n)
      ∨ ((p.enqueueMove target feed units feedMode rapid jog).1 = .error .queueFull
        ∧ blockQueueLen ≤ p.blocks.length) := by
  obtain ⟨_, h⟩ | ⟨_, _, _, h⟩ | ⟨hfull, h⟩ :=
    p.enqueueMove_cases target feed units feedMode rapid jog
  · exact Or.inl ⟨0, by rw [h]⟩
  · exact Or.inl ⟨1, by rw [h]⟩
  · exact Or.inr ⟨by rw [h], hfull⟩

variable [FloorRing K]

/-- A move is held against the envelope and then appended. -/
theorem plan_eq (p : Planner K) (limits : Option (SoftLimits K)) (m : StraightMove K) :
    ∃ o feed units feedMode rapid jog, ∃ e ≠ PlannerError.queueFull,
      m.plan p limits = if p.forbids limits (m.target p) then .error e
        else ((p.note o).enqueueMove (m.target p) feed units feedMode rapid jog).1.map
          .queued := by
  obtain ⟨o, hcheck, _⟩ := Planner.checkTravel_eq p limits (m.target p)
  cases m with
  | jog j =>
    refine ⟨o, j.feed, j.units, .unitsPerMin, false, true, .jogExceedsTravel, by decide, ?_⟩
    have htarget : p.resolveTarget j.axes j.units j.distanceMode j.machineCoords
        = target p (.jog j) := rfl
    simp only [plan, Planner.planJog, htarget, hcheck]
    cases p.forbids limits (target p (.jog j)) with
    | true => rfl
    | false =>
      dsimp only
      rcases (p.note o).enqueueMove (target p (.jog j)) j.feed j.units .unitsPerMin false true
        with ⟨_ | _, _⟩ <;> rfl
  | line rapid axes units distance feed feedMode machineCoords =>
    refine ⟨o, feed, units, feedMode, rapid, false, .moveExceedsTravel, by decide, ?_⟩
    have htarget : p.resolveTarget axes units distance machineCoords
        = target p (.line rapid axes units distance feed feedMode machineCoords) := rfl
    simp only [plan, Planner.planCommandWithLimits, htarget, hcheck]
    cases p.forbids limits
        (target p (.line rapid axes units distance feed feedMode machineCoords)) with
    | true => rfl
    | false =>
      dsimp only [Planner.planLine]
      rcases (p.note o).enqueueMove
          (target p (.line rapid axes units distance feed feedMode machineCoords)) feed units
          feedMode rapid false with ⟨_ | _, _⟩ <;> rfl

/-- **The envelope is all that turns a move down.** -/
theorem accepted_iff (p : Planner K) (limits : SoftLimits K) (m : StraightMove K) :
    m.Accepted p (some limits)
      ↔ softLimitViolation (m.target p) p.config.stepsPerMm limits.maxTravelMm
        p.config.rotaryMask = false := by
  show _ ↔ p.forbids (some limits) (m.target p) = false
  obtain ⟨o, feed, units, feedMode, rapid, jog, e, he, hplan⟩ := m.plan_eq p (some limits)
  unfold Accepted
  rw [hplan]
  cases p.forbids (some limits) (m.target p) with
  | true =>
    rw [if_pos rfl]
    refine ⟨fun h => absurd h ?_, fun h => absurd h (by decide)⟩
    rintro (h | ⟨h, _⟩)
    · cases h
    · exact he (Except.error.inj h)
  | false =>
    rw [if_neg (by decide)]
    refine ⟨fun _ => rfl, fun _ => ?_⟩
    rcases enqueueMove_result (p.note o) (m.target p) feed units feedMode rapid jog with
      ⟨n, h⟩ | ⟨h, hfull⟩
    · rw [h]
      exact Or.inl rfl
    · rw [h]
      exact Or.inr ⟨rfl, hfull⟩

end Accepted

/-- The target of a move of one axis. -/
theorem target_of_shifts {p : Planner K} {m : StraightMove K} {axis : Fin 4} {way : K}
    (h : m.Shifts p axis way) :
    m.target p = Function.update p.positionSteps axis
      (mmToSteps (p.positionMm axis + way) (p.config.stepsPerMm axis)) := by
  obtain ⟨value, hword, hother, hmm⟩ := h
  funext other
  unfold target
  by_cases heq : other = axis
  · rw [heq, Function.update_self, ← hmm, Planner.resolveTarget_of_word hword]
  · rw [Function.update_of_ne heq, Planner.resolveTarget_of_no_word (hother other heq)]

end StraightMove

/-! ## Where a cycle leaves the machine -/

namespace HomingConfig

/-- An axis that is homed is set to its machine zero. -/
theorem homeAxis_ok {config : HomingConfig K} {axis : Fin 4} {run : AxisRun} {steps : Int32}
    (h : config.homeAxis axis run = .ok steps) : steps = config.machineZeroSteps axis := by
  unfold homeAxis at h
  split at h
  · cases h
  · cases hseek : seekIntoSwitch axis run.seek with
    | error e => rw [hseek] at h; cases h
    | ok _ =>
    cases hback : pullOff (config.pulloffSteps axis) run.pullOff with
    | error e => rw [hseek, hback] at h; cases h
    | ok _ =>
    cases hlocate : seekIntoSwitch axis run.locate with
    | error e => rw [hseek, hback, hlocate] at h; cases h
    | ok _ =>
    cases hfinal : pullOff (config.pulloffSteps axis) run.finalPullOff with
    | error e => rw [hseek, hback, hlocate, hfinal] at h; cases h
    | ok _ =>
      rw [hseek, hback, hlocate, hfinal] at h
      exact (Except.ok.inj h).symm

theorem homeAxes_ok {config : HomingConfig K} {runs : Fin 4 → AxisRun}
    (axes : List (Fin 4)) {position zero : Axes Int32}
    (h : config.homeAxes runs axes position = .ok zero) (axis : Fin 4) :
    zero axis = if axis ∈ axes then config.machineZeroSteps axis else position axis := by
  induction axes generalizing position with
  | nil =>
    rw [← Except.ok.inj h, if_neg List.not_mem_nil]
  | cons first rest ih =>
    unfold homeAxes at h
    cases hfirst : config.homeAxis first (runs first) with
    | error e => rw [hfirst] at h; cases h
    | ok steps =>
      rw [hfirst] at h
      rw [ih h]
      by_cases hrest : axis ∈ rest
      · rw [if_pos hrest, if_pos (List.mem_cons_of_mem first hrest)]
      · rw [if_neg hrest]
        by_cases heq : axis = first
        · rw [heq, Function.update_self, if_pos List.mem_cons_self, homeAxis_ok hfirst]
        · rw [Function.update_of_ne heq, if_neg]
          exact fun hmem => (List.mem_cons.1 hmem).elim heq hrest

/-- A cycle in which each search finds its switch ends. -/
theorem runHoming_tripped {config : HomingConfig K}
    (hsearch : ∀ axis ∈ homedAxes, config.searchSteps axis ≠ 0) (position : Axes Int32) :
    ∃ zero, config.runHoming (fun _ => ⟨.tripped, .finished, .tripped, .finished⟩) position
      = .ok zero := by
  have hone : ∀ axis, config.searchSteps axis ≠ 0 →
      config.homeAxis axis ⟨.tripped, .finished, .tripped, .finished⟩
        = .ok (config.machineZeroSteps axis) := by
    intro axis hne
    have hback : pullOff (config.pulloffSteps axis) .finished = .ok () := by
      unfold pullOff
      split <;> rfl
    unfold homeAxis
    rw [if_neg hne, hback]
    rfl
  have hall : ∀ (axes : List (Fin 4)) (position : Axes Int32),
      (∀ axis ∈ axes, config.searchSteps axis ≠ 0) →
      ∃ zero, config.homeAxes (fun _ => ⟨.tripped, .finished, .tripped, .finished⟩) axes
        position = .ok zero := by
    intro axes
    induction axes with
    | nil => exact fun position _ => ⟨position, rfl⟩
    | cons axis rest ih =>
      intro position h
      unfold homeAxes
      rw [hone axis (h axis List.mem_cons_self)]
      exact ih _ fun other hother => h other (List.mem_cons_of_mem axis hother)
  exact hall homedAxes position hsearch

theorem eq_aAxis_of_not_mem {axis : Fin 4} (h : axis ∉ homedAxes) : axis = aAxis := by
  revert axis
  decide

/-- **What a cycle that ends sets**: each of its axes to its machine zero, and no other
axis. -/
theorem runHoming_ok {config : HomingConfig K} {runs : Fin 4 → AxisRun}
    {position zero : Axes Int32} (h : config.runHoming runs position = .ok zero)
    (axis : Fin 4) :
    zero axis
      = if axis ∈ homedAxes then config.machineZeroSteps axis else position axis :=
  homeAxes_ok homedAxes h axis

/-- The travel of an axis in steps, of any size. -/
def travelRound (config : HomingConfig K) (axis : Fin 4) : ℤ :=
  roundf (config.maxTravelMm axis * config.stepsPerMm axis)

/-- The end of the travel that an axis is homed to, when that is the negative one: it is
set this far above zero. -/
def negativeZero (config : HomingConfig K) (axis : Fin 4) : ℤ :=
  if config.forceSetOrigin then 0 else config.travelRound axis + config.pulloffSteps axis

/-- Away from the switch. -/
def workingSide (config : HomingConfig K) (axis : Fin 4) : K :=
  match config.direction axis with
  | .positive => -1
  | .negative => 1

/-- **The settings of an axis fit the envelope.** The travel is one of the 32-bit range.
An axis that homes to the positive end does not back off further than its travel, when
it is not at the origin then. An axis that homes to the negative end has a travel of no
more than a step. -/
def Fits (config : HomingConfig K) (axis : Fin 4) : Prop :=
  config.travelRound axis ≤ i32Max ∧
    match config.direction axis with
    | .positive =>
      config.forceSetOrigin = true ∨ (config.pulloffSteps axis : ℤ) ≤ config.travelRound axis + 1
    | .negative =>
      config.negativeZero axis ≤ 1 ∧ (config.negativeZero axis : K)
        + (config.maxTravelMm axis - config.pulloffMm) * config.stepsPerMm axis < 3 / 2

section Zero

variable [IsStrictOrderedRing K]

/-- A pull-off in steps. -/
theorem pulloffSteps_eq (config : HomingConfig K) (axis : Fin 4)
    (h : 0 ≤ config.pulloffMm * config.stepsPerMm axis) :
    (config.pulloffSteps axis : ℤ)
      = min (roundf (config.pulloffMm * config.stepsPerMm axis)) i32Max := by
  have hnonneg := roundf_nonneg h
  unfold pulloffSteps mmToStepsSafe
  unfold i32Max at *
  dsimp only
  split <;> omega

/-- Where an axis is that has been homed to the positive end. -/
theorem toInt_machineZero_positive {config : HomingConfig K} {axis : Fin 4}
    (hdirection : config.direction axis = .positive)
    (h : 0 ≤ config.pulloffMm * config.stepsPerMm axis) :
    (config.machineZeroSteps axis).toInt
      = if config.forceSetOrigin then 0 else -(config.pulloffSteps axis : ℤ) := by
  have hpulloff := config.pulloffSteps_eq axis h
  have hnonneg := roundf_nonneg h
  unfold machineZeroSteps
  split
  · rfl
  · rw [hdirection]
    show (satI32 _).toInt = _
    rw [toInt_satI32, clampI32_of_fits]
    unfold FitsI32 i32Min i32Max at *
    omega

/-- Where an axis is that has been homed to the negative end: far above zero. -/
theorem toInt_machineZero_negative {config : HomingConfig K} {axis : Fin 4}
    (hdirection : config.direction axis = .negative)
    (htravel : 0 ≤ config.maxTravelMm axis * config.stepsPerMm axis)
    (hfits : config.travelRound axis ≤ i32Max) :
    (config.machineZeroSteps axis).toInt = clampI32 (config.negativeZero axis) := by
  have hnonneg : 0 ≤ config.travelRound axis := roundf_nonneg htravel
  have hsteps : (mmToStepsSafe (config.maxTravelMm axis) (config.stepsPerMm axis) : ℤ)
      = config.travelRound axis := by
    unfold travelRound at *
    unfold mmToStepsSafe
    unfold i32Max at *
    dsimp only
    split <;> omega
  unfold machineZeroSteps negativeZero
  split
  · rfl
  · rw [hdirection]
    show (satAdd (satI32 _) _).toInt = _
    rw [toInt_satAdd, toInt_satI32, hsteps, clampI32_of_fits ⟨?_, hfits⟩]
    unfold i32Min
    omega

/-- A step count is inside the envelope of an axis. -/
def Inside (config : HomingConfig K) (axis : Fin 4) (steps : ℤ) : Prop :=
  config.travelRound axis ≤ i32Max ∧ -config.travelRound axis - 1 ≤ steps ∧ steps ≤ 1

/-- Where a move of one axis ends, in steps. -/
def endOf (config : HomingConfig K) (axis : Fin 4) (steps : Int32) (way : K) : Int32 :=
  mmToSteps ((steps.toInt : K) / config.stepsPerMm axis + way) (config.stepsPerMm axis)

omit [LinearOrder K] [FloorRing K] [IsStrictOrderedRing K] in
theorem toInt_endOf [LinearOrder K] [FloorRing K] {config : HomingConfig K} {axis : Fin 4}
    (h : config.stepsPerMm axis ≠ 0) (steps : Int32) (way : K) :
    (config.endOf axis steps way).toInt
      = clampI32 (roundf ((steps.toInt : K) + way * config.stepsPerMm axis)) := by
  unfold endOf mmToSteps
  rw [toInt_roundToI32, add_mul, div_mul_cancel₀ _ h]

/-- All that an axis can travel from its machine zero, away from its switch, is inside. -/
def ReachesInside (config : HomingConfig K) (axis : Fin 4) : Prop :=
  config.Inside axis (config.machineZeroSteps axis).toInt ∧
    ∀ way, 0 ≤ way → way ≤ config.maxTravelMm axis - config.pulloffMm →
      config.Inside axis (config.endOf axis (config.machineZeroSteps axis)
        (config.workingSide axis * way)).toInt

/-- What is known of the numbers of an axis. -/
structure Proper (config : HomingConfig K) (axis : Fin 4) : Prop where
  /-- There are steps. -/
  steps : 0 < config.stepsPerMm axis
  /-- There is a travel. -/
  travel : 0 < config.maxTravelMm axis
  /-- The pull-off has no direction. -/
  pulloff : 0 ≤ config.pulloffMm

/-- An axis that is homed to the positive end has its travel inside, unless its switch
is further off than that. -/
theorem reachesInside_positive {config : HomingConfig K} {axis : Fin 4}
    (hproper : config.Proper axis) (hdirection : config.direction axis = .positive) :
    config.ReachesInside axis ↔ config.Fits axis := by
  have hs := hproper.steps
  have hpulloffMm : 0 ≤ config.pulloffMm * config.stepsPerMm axis :=
    mul_nonneg hproper.pulloff hs.le
  have htravelMm : 0 ≤ config.maxTravelMm axis * config.stepsPerMm axis :=
    mul_nonneg hproper.travel.le hs.le
  have hzero := toInt_machineZero_positive hdirection hpulloffMm
  have hsteps := config.pulloffSteps_eq axis hpulloffMm
  have ht : 0 ≤ config.travelRound axis := roundf_nonneg htravelMm
  unfold ReachesInside Fits
  rw [hdirection, hzero]
  unfold Inside
  constructor
  · rintro ⟨⟨hfits, hlow, _⟩, _⟩
    refine ⟨hfits, ?_⟩
    cases hforce : config.forceSetOrigin with
    | true => exact Or.inl rfl
    | false =>
      rw [hforce, if_neg (by decide)] at hlow
      exact Or.inr (by omega)
  · rintro ⟨hfits, hlow⟩
    refine ⟨⟨hfits, ?_⟩, fun way hway hfar => ⟨hfits, ?_⟩⟩
    · cases hforce : config.forceSetOrigin with
      | true =>
        rw [if_pos rfl]
        omega
      | false =>
        rw [hforce] at hlow
        rw [if_neg (by decide)]
        have hle := hlow.resolve_left (by decide)
        omega
    · -- The whole way from zero is the travel, give or take the rounding.
      rw [toInt_endOf hs.ne', hzero]
      set x : ℤ := if config.forceSetOrigin then 0 else -(config.pulloffSteps axis : ℤ)
        with hx
      have hback : -((x : ℤ) : K) ≤ config.pulloffMm * config.stepsPerMm axis + 1 / 2
          ∧ x ≤ 0 := by
        rw [hx]
        split
        · exact ⟨by push_cast; linarith, le_rfl⟩
        · refine ⟨?_, by omega⟩
          have hmin : ((config.pulloffSteps axis : ℤ) : K)
              ≤ roundf (config.pulloffMm * config.stepsPerMm axis) := by
            exact_mod_cast hsteps.trans_le (min_le_left _ _)
          have hround := roundf_le_add_half hpulloffMm
          push_cast at hmin ⊢
          linarith
      obtain ⟨hback, hxle⟩ := hback
      have hxle' : ((x : ℤ) : K) ≤ 0 := by exact_mod_cast hxle
      have hwayle : way * config.stepsPerMm axis
          ≤ (config.maxTravelMm axis - config.pulloffMm) * config.stepsPerMm axis :=
        mul_le_mul_of_nonneg_right hfar hs.le
      have hwaynonneg : 0 ≤ way * config.stepsPerMm axis := mul_nonneg hway hs.le
      have hend : (x : K) + config.workingSide axis * way * config.stepsPerMm axis
          = -(way * config.stepsPerMm axis - x) := by
        unfold workingSide
        rw [hdirection]
        ring
      have hnonneg : 0 ≤ way * config.stepsPerMm axis - (x : K) := by linarith
      have htop := (roundf_le_iff htravelMm (config.travelRound axis)).1 le_rfl
      have hupper : roundf (way * config.stepsPerMm axis - (x : K))
          ≤ config.travelRound axis + 1 := by
        rw [roundf_le_iff hnonneg]
        push_cast
        linarith
      have hlower := roundf_nonneg hnonneg
      rw [hend, roundf_neg]
      unfold clampI32 i32Min i32Max at *
      omega

/-- An axis that is homed to the negative end has its travel above zero. -/
theorem reachesInside_negative {config : HomingConfig K} {axis : Fin 4}
    (hproper : config.Proper axis) (hdirection : config.direction axis = .negative) :
    config.ReachesInside axis ↔ config.Fits axis := by
  have hs := hproper.steps
  have htravelMm : 0 ≤ config.maxTravelMm axis * config.stepsPerMm axis :=
    mul_nonneg hproper.travel.le hs.le
  have ht : 0 ≤ config.travelRound axis := roundf_nonneg htravelMm
  have hznonneg : 0 ≤ config.negativeZero axis := by
    unfold negativeZero
    split <;> omega
  have hside : config.workingSide axis = 1 := by
    unfold workingSide
    rw [hdirection]
  -- From an end at most a step above zero, the way up is rounded once.
  have hend : config.travelRound axis ≤ i32Max → config.negativeZero axis ≤ 1 → ∀ way, 0 ≤ way →
      (config.Inside axis (config.endOf axis (config.machineZeroSteps axis)
          (config.workingSide axis * way)).toInt
        ↔ (config.negativeZero axis : K) + way * config.stepsPerMm axis < 3 / 2) := by
    intro hfits hone way hway
    have hnonneg : (0 : K) ≤ config.negativeZero axis + way * config.stepsPerMm axis :=
      add_nonneg (by exact_mod_cast hznonneg) (mul_nonneg hway hs.le)
    have hzero : (config.machineZeroSteps axis).toInt = config.negativeZero axis := by
      rw [toInt_machineZero_negative hdirection htravelMm hfits, clampI32_of_fits]
      unfold FitsI32 i32Min i32Max
      omega
    have hround := roundf_nonneg hnonneg
    have hle := roundf_le_iff hnonneg 1
    unfold Inside
    rw [toInt_endOf hs.ne', hzero, hside, one_mul]
    have hiff : (config.negativeZero axis : K) + way * config.stepsPerMm axis < 3 / 2
        ↔ roundf ((config.negativeZero axis : K) + way * config.stepsPerMm axis) ≤ 1 := by
      rw [hle]
      push_cast
      constructor <;> intro h <;> linarith
    rw [hiff]
    unfold clampI32 i32Min i32Max at *
    omega
  unfold ReachesInside Fits
  rw [hdirection]
  constructor
  · rintro ⟨⟨hfits, _, hhigh⟩, hreach⟩
    rw [toInt_machineZero_negative hdirection htravelMm hfits] at hhigh
    have hone : config.negativeZero axis ≤ 1 := by
      unfold clampI32 i32Min i32Max at hhigh
      omega
    refine ⟨hfits, hone, ?_⟩
    rcases le_or_gt config.pulloffMm (config.maxTravelMm axis) with hle | hlt
    · exact (hend hfits hone _ (sub_nonneg.2 hle)).1 (hreach _ (sub_nonneg.2 hle) le_rfl)
    · have hneg : (config.maxTravelMm axis - config.pulloffMm) * config.stepsPerMm axis < 0 :=
        mul_neg_of_neg_of_pos (sub_neg.2 hlt) hs
      have honeK : (config.negativeZero axis : K) ≤ 1 := by exact_mod_cast hone
      linarith
  · rintro ⟨hfits, hone, hfar⟩
    refine ⟨⟨hfits, ?_⟩, fun way hway hle => (hend hfits hone way hway).2 ?_⟩
    · rw [toInt_machineZero_negative hdirection htravelMm hfits]
      unfold clampI32 i32Min i32Max
      omega
    · have hmono : way * config.stepsPerMm axis
          ≤ (config.maxTravelMm axis - config.pulloffMm) * config.stepsPerMm axis :=
        mul_le_mul_of_nonneg_right hle hs.le
      linarith

theorem reachesInside_iff {config : HomingConfig K} {axis : Fin 4}
    (hproper : config.Proper axis) : config.ReachesInside axis ↔ config.Fits axis := by
  cases hdirection : config.direction axis with
  | positive => exact reachesInside_positive hproper hdirection
  | negative => exact reachesInside_negative hproper hdirection

end Zero

end HomingConfig

namespace Settings

variable [IsStrictOrderedRing K] [Libm K]

/-- **The homed machine is inside the envelope**: each axis of the cycle is, and every
jog and every straight move of one of them away from its switch, by at most the travel
that the pull-off leaves, is accepted. -/
structure HomedInside (s : Settings) (h : Sane s) (zero : Axes Int32) : Prop where
  /-- The axes are inside. -/
  position : ∀ axis ∈ homedAxes, axisViolation zero (axisValue s.stepsPerMm : Axes K)
    (axisValue s.maxTravelMm) s.rotaryMask axis = false
  /-- The moves are accepted. -/
  inward : ∀ axis ∈ homedAxes, ∀ p : Planner K, p.config = s.plannerConfig h →
    p.positionSteps = zero → ∀ way, 0 ≤ way →
      way ≤ axisValue s.maxTravelMm axis - (s.homingPulloffMm.toRat : K) →
      ∀ m : StraightMove K, m.Shifts p axis (s.homingConfig.workingSide axis * way) →
        m.Accepted p (s.currentSoftLimits true)

/-- The settings, and the axis that is not homed, leave the machine inside. -/
structure HomesInside (K : Type) [Field K] [LinearOrder K] [FloorRing K] (s : Settings)
    (position : Axes Int32) : Prop where
  /-- The settings of each axis of the cycle fit the envelope. -/
  fits : ∀ axis ∈ homedAxes, (s.homingConfig : HomingConfig K).Fits axis
  /-- The axis that is not homed is inside, when there is a move to accept at all. -/
  other : (∃ axis ∈ homedAxes, (s.homingPulloffMm.toRat : K) ≤ axisValue s.maxTravelMm axis) →
    axisViolation position (axisValue s.stepsPerMm : Axes K) (axisValue s.maxTravelMm)
      s.rotaryMask aAxis = false

omit [FloorRing K] [Libm K] in
theorem proper_homingConfig {s : Settings} (h : Sane s)
    (hpulloff : Policy.f32NonNegative.accepts s.homingPulloffMm = true) (axis : Fin 4) :
    (s.homingConfig : HomingConfig K).Proper axis where
  steps := axisValue_pos h.stepsPerMm axis
  travel := axisValue_pos h.maxTravel axis
  pulloff := Rat.cast_nonneg.2 (toRat_nonneg (Bool.and_eq_true_iff.1 hpulloff).2)

omit [Libm K] in
/-- The check of an axis of the cycle, in the terms of the cycle. -/
theorem axisViolation_iff_inside {s : Settings} (h : Sane s) {axis : Fin 4}
    (hmem : axis ∈ homedAxes) (target : Axes Int32) :
    axisViolation target (axisValue s.stepsPerMm : Axes K) (axisValue s.maxTravelMm)
        s.rotaryMask axis = false
      ↔ (s.homingConfig : HomingConfig K).Inside axis (target axis).toInt :=
  axisViolation_eq_false_iff (isRotary_of_mem_homedAxes (K := K) h axis hmem)
    (mul_nonneg (axisValue_pos h.maxTravel axis).le (axisValue_pos h.stepsPerMm axis).le)

/-- The words of one axis. -/
def wordOf (axis : Fin 4) (value : K) : AxisWords K where
  x := if axis = xAxis then some value else none
  y := if axis = yAxis then some value else none
  z := if axis = zAxis then some value else none
  a := if axis = aAxis then some value else none

omit [Field K] [LinearOrder K] [FloorRing K] [IsStrictOrderedRing K] [Libm K] in
theorem word_wordOf (axis other : Fin 4) (value : K) :
    (wordOf axis value).word other = if axis = other then some value else none := by
  fin_cases other <;> rfl

/-- The jog of one axis some way, in millimetres. -/
def jogOf (axis : Fin 4) (way : K) : StraightMove K :=
  .jog {
    axes := wordOf axis way
    distanceMode := .incremental
    units := .millimeter
    feed := 1
    machineCoords := false }

omit [FloorRing K] [IsStrictOrderedRing K] [Libm K] in
theorem jogOf_shifts (p : Planner K) (axis : Fin 4) (way : K) :
    (jogOf axis way).Shifts p axis way := by
  refine ⟨way, ?_, fun other hother => ?_, ?_⟩
  · show (wordOf axis way).word axis = _
    rw [word_wordOf, if_pos rfl]
  · show (wordOf axis way).word other = _
    rw [word_wordOf, if_neg (Ne.symm hother)]
  · show p.positionMm axis + way * (if p.config.isRotary axis then 1 else 1) = _
    rw [ite_self, mul_one]

/-- A planner that was put where the cycle left the machine. -/
def homedPlanner (s : Settings) (h : Sane s) (zero : Axes Int32) : Planner K :=
  (Planner.new (s.plannerConfig h)).syncPosition zero

/-- **When homing leaves the machine inside its envelope.** The cycle and the envelope
agree on where zero is for an axis that homes to the positive end. An axis that homes to
the negative end is left its whole travel above zero, so that it is inside only with a
travel of no more than a step. -/
theorem homedInside_iff {s : Settings} (h : Sane s)
    (hpulloff : Policy.f32NonNegative.accepts s.homingPulloffMm = true)
    (hlimits : s.softLimitsEnable = true) {runs : Fin 4 → HomingConfig.AxisRun}
    {position zero : Axes Int32}
    (hrun : (s.homingConfig : HomingConfig K).runHoming runs position = .ok zero) :
    HomedInside (K := K) s h zero ↔ HomesInside K s position := by
  have hzero := HomingConfig.runHoming_ok hrun
  have hsome : (s.currentSoftLimits true : Option (SoftLimits K))
      = some ⟨axisValue s.maxTravelMm⟩ := by
    unfold currentSoftLimits
    rw [hlimits]
    rfl
  have hreaches := fun axis =>
    HomingConfig.reachesInside_iff (proper_homingConfig (K := K) h hpulloff axis)
  -- A move of one axis is accepted when its end and the other axes are inside.
  have hmoves : ∀ axis ∈ homedAxes, ∀ p : Planner K, p.config = s.plannerConfig h →
      p.positionSteps = zero → ∀ way, ∀ m : StraightMove K, m.Shifts p axis way →
      (m.Accepted p (s.currentSoftLimits true)
        ↔ (s.homingConfig : HomingConfig K).Inside axis
            ((s.homingConfig : HomingConfig K).endOf axis (zero axis) way).toInt
          ∧ ∀ other, other ≠ axis → axisViolation zero (axisValue s.stepsPerMm : Axes K)
            (axisValue s.maxTravelMm) s.rotaryMask other = false) := by
    intro axis hmem p hconfig hposition way m hshifts
    have hend : m.target p axis
        = (s.homingConfig : HomingConfig K).endOf axis (zero axis) way := by
      rw [StraightMove.target_of_shifts hshifts, Function.update_self]
      unfold Planner.positionMm
      rw [hconfig, hposition]
      rfl
    have hother : ∀ other, other ≠ axis → m.target p other = zero other := by
      intro other hne
      rw [StraightMove.target_of_shifts hshifts, Function.update_of_ne hne, hposition]
    rw [hsome, StraightMove.accepted_iff, softLimitViolation_eq_false_iff, hconfig, ← hend]
    constructor
    · intro hall
      refine ⟨(axisViolation_iff_inside h hmem _).1 (hall axis), fun other hne => ?_⟩
      rw [← axisViolation_congr (hother other hne)]
      exact hall other
    · rintro ⟨hin, hrest⟩ other
      by_cases heq : other = axis
      · rw [heq]
        exact (axisViolation_iff_inside h hmem _).2 hin
      · rw [← hrest other heq]
        exact axisViolation_congr (hother other heq) _ _ _
  have hset : ∀ axis ∈ homedAxes,
      zero axis = (s.homingConfig : HomingConfig K).machineZeroSteps axis := by
    intro axis hmem
    rw [hzero axis, if_pos hmem]
  constructor
  · rintro ⟨hposition, hinward⟩
    refine ⟨fun axis hmem => ?_, ?_⟩
    · rw [← hreaches axis]
      unfold HomingConfig.ReachesInside
      rw [← hset axis hmem]
      refine ⟨(axisViolation_iff_inside h hmem zero).1 (hposition axis hmem), ?_⟩
      intro way hway hle
      have haccepted := hinward axis hmem (homedPlanner s h zero) rfl rfl way hway hle
        (jogOf axis _) (jogOf_shifts _ axis _)
      exact ((hmoves axis hmem _ rfl rfl _ _ (jogOf_shifts _ axis _)).1 haccepted).1
    · rintro ⟨axis, hmem, hle⟩
      -- A jog that goes nowhere is turned down when another axis is outside.
      have haccepted := hinward axis hmem (homedPlanner s h zero) rfl rfl 0 le_rfl
        (sub_nonneg.2 hle) (jogOf axis _) (jogOf_shifts _ axis _)
      have hother := ((hmoves axis hmem _ rfl rfl _ _ (jogOf_shifts _ axis _)).1 haccepted).2
        aAxis (by rintro rfl; revert hmem; decide)
      rw [← hother]
      exact axisViolation_congr (hzero aAxis).symm _ _ _
  · rintro ⟨hfits, hother⟩
    have hreach := fun axis hmem => (hreaches axis).2 (hfits axis hmem)
    have hposition : ∀ axis ∈ homedAxes, axisViolation zero (axisValue s.stepsPerMm : Axes K)
        (axisValue s.maxTravelMm) s.rotaryMask axis = false := by
      intro axis hmem
      rw [axisViolation_iff_inside h hmem, hset axis hmem]
      exact (hreach axis hmem).1
    refine ⟨hposition, fun axis hmem p hconfig hpos way hway hle m hshifts => ?_⟩
    rw [hmoves axis hmem p hconfig hpos _ m hshifts, hset axis hmem]
    refine ⟨(hreach axis hmem).2 way hway hle, fun other _ => ?_⟩
    by_cases hin : other ∈ homedAxes
    · exact hposition other hin
    · obtain rfl := HomingConfig.eq_aAxis_of_not_mem hin
      rw [← hother ⟨axis, hmem, sub_nonneg.1 (hway.trans hle)⟩]
      exact axisViolation_congr (hzero aAxis) _ _ _

/-- Homing and soft limits are on, and the switch of X is at its negative end. -/
def homedNegative : Settings := { homed with homingDirInvertMask := 1 }

theorem sane_homed : Sane homed := { sane_default with softLimits := fun _ => by decide }

theorem sane_homedNegative : Sane homedNegative :=
  { sane_default with softLimits := fun _ => by decide }

theorem accepts_homingPulloff : Policy.f32NonNegative.accepts (lit 1) = true :=
  accepts_nonNegative_of_positive (accepts_lit (by norm_num) (by norm_num))

theorem toRat_lit {n : ℕ} (h : n < 2 ^ 24) : (lit n).toRat = n :=
  F32.toRat_ofRat (Binary32.representable_natCast h)

/-- The travel of the homed axes of the default settings, in steps. -/
theorem travel_default {axis : Fin 4} (hmem : axis ∈ homedAxes) :
    (axisValue default.maxTravelMm axis : ℚ) * axisValue default.stepsPerMm axis
      = if axis = zAxis then ((640000 : ℤ) : ℚ) else ((160000 : ℤ) : ℚ) := by
  have htravel : (lit 200).toRat = 200 := toRat_lit (n := 200) (by norm_num)
  have hsteps : (lit 800).toRat = 800 := toRat_lit (n := 800) (by norm_num)
  have hstepsZ : (lit 3200).toRat = 3200 := toRat_lit (n := 3200) (by norm_num)
  have hcases : axis = zAxis ∨ axis = xAxis ∨ axis = yAxis := by
    revert axis
    decide
  rcases hcases with rfl | rfl | rfl
  · show ((lit 200).toRat : ℚ) * ((lit 3200).toRat : ℚ) = ((640000 : ℤ) : ℚ)
    rw [htravel, hstepsZ]
    norm_num
  · show ((lit 200).toRat : ℚ) * ((lit 800).toRat : ℚ) = ((160000 : ℤ) : ℚ)
    rw [htravel, hsteps]
    norm_num
  · show ((lit 200).toRat : ℚ) * ((lit 800).toRat : ℚ) = ((160000 : ℤ) : ℚ)
    rw [htravel, hsteps]
    norm_num

/-- The cycle of the default settings searches for every switch. -/
theorem searchSteps_default (config : HomingConfig ℚ)
    (htravel : config.maxTravelMm = axisValue default.maxTravelMm)
    (hsteps : config.stepsPerMm = axisValue default.stepsPerMm) :
    ∀ axis ∈ homedAxes, config.searchSteps axis ≠ 0 := by
  intro axis hmem
  have hscaled : homingSearchScalar * config.maxTravelMm axis * config.stepsPerMm axis
      = if axis = zAxis then ((960000 : ℤ) : ℚ) else ((240000 : ℤ) : ℚ) := by
    rw [mul_assoc, htravel, hsteps, travel_default hmem]
    unfold homingSearchScalar
    split <;> norm_num
  unfold HomingConfig.searchSteps mmToStepsSafe
  rw [hscaled]
  split <;> rw [roundf_intCast] <;> decide

/-- A machine whose switches are at the positive ends is left inside. -/
theorem homedInside_homed :
    ∃ zero, (homed.homingConfig : HomingConfig ℚ).runHoming
        (fun _ => ⟨.tripped, .finished, .tripped, .finished⟩) (fun _ => 0) = .ok zero
      ∧ (HomedInside (K := ℚ) homed sane_homed zero ↔ HomesInside ℚ homed fun _ => 0) := by
  obtain ⟨zero, hrun⟩ := HomingConfig.runHoming_tripped
    (searchSteps_default homed.homingConfig rfl rfl) fun _ => 0
  exact ⟨zero, hrun, homedInside_iff sane_homed accepts_homingPulloff rfl hrun⟩

/-- **Homing leaves the machine outside**: with the switch of X at its negative end, X is
set to more than its travel above zero. -/
theorem not_homedInside :
    ¬∀ (s : Settings) (h : Sane s) (runs : Fin 4 → HomingConfig.AxisRun)
      (position zero : Axes Int32),
      Policy.f32NonNegative.accepts s.homingPulloffMm = true →
      s.homingEnabled = true → s.softLimitsEnable = true →
      (s.homingConfig : HomingConfig ℚ).runHoming runs position = .ok zero →
      HomedInside (K := ℚ) s h zero := by
  intro hall
  obtain ⟨zero, hrun⟩ := HomingConfig.runHoming_tripped
    (searchSteps_default homedNegative.homingConfig rfl rfl) fun _ => 0
  have hinside := hall homedNegative sane_homedNegative _ _ zero accepts_homingPulloff
    (by decide) rfl hrun
  have hmem : xAxis ∈ homedAxes := by decide
  have hproper := proper_homingConfig (K := ℚ) sane_homedNegative accepts_homingPulloff xAxis
  have htravel : (homedNegative.homingConfig : HomingConfig ℚ).travelRound xAxis = 160000 := by
    show roundf ((axisValue default.maxTravelMm xAxis : ℚ) * axisValue default.stepsPerMm xAxis)
      = 160000
    rw [travel_default hmem, if_neg (by decide), roundf_intCast]
  have hx := (axisViolation_iff_inside sane_homedNegative hmem zero).1
    (hinside.position xAxis hmem)
  obtain ⟨hfits, -, hhigh⟩ := hx
  have hset : zero xAxis
      = (homedNegative.homingConfig : HomingConfig ℚ).machineZeroSteps xAxis := by
    rw [HomingConfig.runHoming_ok hrun, if_pos hmem]
  rw [hset, HomingConfig.toInt_machineZero_negative rfl
    (mul_nonneg hproper.travel.le hproper.steps.le) hfits] at hhigh
  have hzero : (homedNegative.homingConfig : HomingConfig ℚ).negativeZero xAxis
      = 160000 + (homedNegative.homingConfig : HomingConfig ℚ).pulloffSteps xAxis := by
    unfold HomingConfig.negativeZero
    rw [htravel]
    rfl
  rw [hzero] at hhigh
  unfold clampI32 i32Min i32Max at hhigh
  omega

end Settings

end Galdr
