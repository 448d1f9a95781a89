import Galdr.Homing
import Galdr.MotionSteps
import Galdr.TrapezoidLaw

/-!
# The walk of a homing axis

The homing of an axis walks it, step by step, against a limit switch that is active at and
beyond its trip position: fast into the switch, back by the pull-off, slowly into the switch
again, and back by the pull-off a last time. The probe stepper makes the steps and samples the
switch between them.

The slow approach is meant to begin off the switch. An axis that starts beyond the trip position
by more than the pull-off is still on the switch behind the first way back, and the slow approach
ends where it begins (`homeAxis_homes_iff`).
-/

namespace Galdr

/-! ## The machine that an axis moves -/

/-- The machine, as far as one of its axes moves it. -/
structure AxisMachine (axis : Fin 4) where
  /-- Where the axis is. -/
  position : ℤ
  /-- The direction latched last is the positive one. -/
  positive : Bool
  /-- The ticks made. -/
  ticks : ℕ
  deriving DecidableEq

namespace AxisMachine

variable {axis : Fin 4}

/-- The way that a step takes the axis. -/
def way (positive : Bool) : ℤ := if positive then 1 else -1

/-- Latch a direction. -/
def facing (m : AxisMachine axis) (positive : Bool) : AxisMachine axis := { m with positive }

/-- Make some steps. -/
def walk (m : AxisMachine axis) (n : ℕ) : AxisMachine axis where
  position := m.position + way m.positive * n
  positive := m.positive
  ticks := m.ticks + n

/-- One tick, on which the axis steps or not. -/
def tick (m : AxisMachine axis) (event : StepEvent) : AxisMachine axis where
  position := if event.step axis then m.position + way m.positive else m.position
  positive := m.positive
  ticks := m.ticks + 1

instance : StepSink (AxisMachine axis) where
  setDirection dir m := (.ok (), m.facing (dir.dir axis))
  emitBurst events m := (.ok (), events.foldl tick m)

@[simp] theorem walk_zero (m : AxisMachine axis) : m.walk 0 = m := by
  simp [walk]

theorem walk_walk (m : AxisMachine axis) (n n' : ℕ) : (m.walk n).walk n' = m.walk (n + n') := by
  simp only [walk, Nat.cast_add, mul_add, Nat.add_assoc, Int.add_assoc]

end AxisMachine

/-! ## The walk of a single axis -/

/-- A move of one axis. -/
def singleAxisSteps (axis : Fin 4) (deltaSteps : Int32) : Axes Int32 := fun other =>
  if other = axis then deltaSteps else 0

/-- The block of a move of one axis, at a fixed period. -/
def singleAxisBlock {K : Type} [Zero K] [One K] (axis : Fin 4) (deltaSteps : Int32) : Block K :=
  .placeholder (singleAxisSteps axis deltaSteps)

theorem dominantSteps_singleAxisSteps (axis : Fin 4) (deltaSteps : Int32) :
    dominantSteps (singleAxisSteps axis deltaSteps) = deltaSteps.toInt.natAbs := by
  refine le_antisymm (Finset.sup_le fun other _ => ?_) ?_
  · unfold singleAxisSteps
    split
    · exact le_rfl
    · exact Nat.zero_le _
  · have hsame : (singleAxisSteps axis deltaSteps axis).toInt.natAbs = deltaSteps.toInt.natAbs := by
      simp [singleAxisSteps]
    rw [← hsame]
    exact Finset.le_sup (f := fun other => (singleAxisSteps axis deltaSteps other).toInt.natAbs)
      (Finset.mem_univ axis)

/-- The axis that moves is the longest. -/
theorem dominantAxis_singleAxisSteps (axis : Fin 4) {deltaSteps : Int32}
    (h : deltaSteps.toInt ≠ 0) : dominantAxis (singleAxisSteps axis deltaSteps) = axis := by
  have hdominant := natAbs_dominantAxis (singleAxisSteps axis deltaSteps)
  rw [dominantSteps_singleAxisSteps] at hdominant
  by_contra hne
  rw [singleAxisSteps, if_neg hne] at hdominant
  exact h (Int.natAbs_eq_zero.mp hdominant.symm)

/-- The axis steps on every tick. -/
theorem ddaTick_singleAxisSteps (axis : Fin 4) {deltaSteps : Int32} (h : deltaSteps.toInt ≠ 0)
    (error : Axes ℤ) :
    (ddaTick (absSteps (singleAxisSteps axis deltaSteps))
      (dominantAxis (singleAxisSteps axis deltaSteps)) error).2 axis = true := by
  rw [dominantAxis_singleAxisSteps axis h]
  simp [ddaTick, absSteps, singleAxisSteps, h]

namespace ProbeStepper

variable {axis : Fin 4}

/-- A walk of a single axis goes on to the first sample that is at the edge, or to the end. -/
theorem probeFrom_single {deltaSteps : Int32} (h : deltaSteps.toInt ≠ 0) (period : ℕ)
    (atStopEdge : ℕ → Bool) (remaining : ℕ) (error : Axes ℤ) (emitted : ℕ)
    (m : AxisMachine axis) :
    ∃ n ≤ remaining, (∀ i < n, atStopEdge (emitted + i) = false) ∧
      (n < remaining → atStopEdge (emitted + n) = true) ∧
      probeFrom (singleAxisSteps axis deltaSteps) period atStopEdge remaining error emitted m =
        (.ok ⟨atStopEdge (emitted + n), emitted + n⟩, m.walk n) := by
  induction remaining generalizing error emitted m with
  | zero =>
    refine ⟨0, le_rfl, fun i hi => absurd hi (Nat.not_lt_zero i),
      fun hlt => absurd hlt (lt_irrefl 0), ?_⟩
    rw [AxisMachine.walk_zero]
    rfl
  | succ remaining ih =>
    unfold probeFrom
    cases hedge : atStopEdge emitted with
    | true =>
      refine ⟨0, Nat.zero_le _, fun i hi => absurd hi (Nat.not_lt_zero i), fun _ => hedge, ?_⟩
      rw [AxisMachine.walk_zero, if_pos rfl, Nat.add_zero, hedge]
    | false =>
      have hstep := ddaTick_singleAxisSteps axis h error
      rw [if_neg Bool.false_ne_true]
      generalize ddaTick (absSteps (singleAxisSteps axis deltaSteps))
        (dominantAxis (singleAxisSteps axis deltaSteps)) error = next at hstep ⊢
      obtain ⟨error', step⟩ := next
      obtain ⟨n, hn, hbefore, hstop, hwalk⟩ := ih error' (emitted + 1) (m.walk 1)
      have htick : StepSink.emitBurst [⟨step, period⟩] m = (.ok (), m.walk 1) := by
        refine congrArg (Prod.mk (Except.ok ())) ?_
        show m.tick ⟨step, period⟩ = m.walk 1
        have hstep' : step axis = true := hstep
        simp [AxisMachine.tick, AxisMachine.walk, hstep']
      dsimp only
      rw [htick]
      have hshift (i : ℕ) : emitted + 1 + i = emitted + (i + 1) := by omega
      refine ⟨n + 1, Nat.succ_le_succ hn, ?_, ?_, ?_⟩
      · intro i hi
        cases i with
        | zero => exact hedge
        | succ i => exact hshift i ▸ hbefore i (Nat.lt_of_succ_lt_succ hi)
      · exact fun hlt => hshift n ▸ hstop (Nat.lt_of_succ_lt_succ hlt)
      · rw [hshift n, AxisMachine.walk_walk, Nat.add_comm 1 n] at hwalk
        exact hwalk

/-- A probe of a single axis goes on to the first sample that is at the edge, or to the end. -/
theorem runProbe_single {K : Type} [Field K] [LinearOrder K] {config : MotionConfig K}
    (husable : ¬config.Unusable) {deltaSteps : Int32} (h : deltaSteps.toInt ≠ 0) (period : ℕ)
    (atStopEdge : ℕ → Bool) (m : AxisMachine axis) :
    ∃ n ≤ deltaSteps.toInt.natAbs, (∀ i < n, atStopEdge i = false) ∧
      (n < deltaSteps.toInt.natAbs → atStopEdge n = true) ∧
      runProbe config (singleAxisBlock axis deltaSteps) period atStopEdge m =
        (.ok ⟨atStopEdge n, n⟩, (m.facing (decide (0 ≤ deltaSteps))).walk n) := by
  obtain ⟨n, hn, hbefore, hstop, hwalk⟩ := probeFrom_single h
    (clampTicks config.minPeriodTicks config.maxPeriodTicks period) atStopEdge
    deltaSteps.toInt.natAbs (fun _ => 0) 0 (m.facing (decide (0 ≤ deltaSteps)))
  simp only [Nat.zero_add] at hbefore hstop hwalk
  refine ⟨n, hn, hbefore, hstop, ?_⟩
  have hcount : (singleAxisBlock axis deltaSteps : Block K).stepEventCount =
      deltaSteps.toInt.natAbs := dominantSteps_singleAxisSteps axis deltaSteps
  have hdirection : StepSink.setDirection (.ofSteps (singleAxisSteps axis deltaSteps)) m =
      (.ok (), m.facing (decide (0 ≤ deltaSteps))) := by
    show (Except.ok (), m.facing _) = _
    simp [DirState.ofSteps, singleAxisSteps]
  unfold runProbe
  rw [if_neg husable, hcount, if_neg (Int.natAbs_ne_zero.mpr h)]
  have hsteps : (singleAxisBlock axis deltaSteps : Block K).steps =
      singleAxisSteps axis deltaSteps := rfl
  rw [hsteps, hdirection]
  exact hwalk

/-- A probe of a single axis goes its way, and counts the ticks. -/
theorem runProbe_signed {K : Type} [Field K] [LinearOrder K] {config : MotionConfig K}
    (husable : ¬config.Unusable) {sign : ℤ} (hsign : sign = 1 ∨ sign = -1) {count : ℕ}
    (hcount : 0 < count) (hmax : (count : ℤ) ≤ i32Max) (period : ℕ) (atStopEdge : ℕ → Bool)
    (m : AxisMachine axis) :
    ∃ n ≤ count, (∀ i < n, atStopEdge i = false) ∧ (n < count → atStopEdge n = true) ∧
      ∃ m' : AxisMachine axis, m'.position = m.position + sign * n ∧ m'.ticks = m.ticks + n ∧
        ProbeStepper.runProbe config (singleAxisBlock axis (Int32.ofInt (sign * count))) period
          atStopEdge m = (.ok ⟨atStopEdge n, n⟩, m') := by
  have hmax' : (count : ℤ) ≤ 2147483647 := hmax
  have htoInt : (Int32.ofInt (sign * count)).toInt = sign * count := by
    refine Int32.toInt_ofInt_of_le ?_ ?_ <;> obtain rfl | rfl := hsign <;> omega
  have hne : (Int32.ofInt (sign * count)).toInt ≠ 0 := by
    rw [htoInt]
    obtain rfl | rfl := hsign <;> omega
  have habs : (Int32.ofInt (sign * count)).toInt.natAbs = count := by
    rw [htoInt]
    obtain rfl | rfl := hsign <;> omega
  obtain ⟨n, hn, hbefore, hstop, hrun⟩ := runProbe_single husable hne period atStopEdge m
  rw [habs] at hn hstop
  refine ⟨n, hn, hbefore, hstop, _, ?_, rfl, hrun⟩
  have hway : AxisMachine.way (decide (0 ≤ Int32.ofInt (sign * count))) = sign := by
    have hle : (0 ≤ Int32.ofInt (sign * count)) ↔ 0 ≤ sign * count := by
      rw [Int32.le_iff_toInt_le, htoInt]
      rfl
    unfold AxisMachine.way
    obtain rfl | rfl := hsign
    · rw [decide_eq_true (hle.mpr (by omega))]
      rfl
    · rw [decide_eq_false (fun h => by have := hle.mp h; omega)]
      rfl
  exact congrArg (fun way => m.position + way * n) hway

end ProbeStepper

/-! ## The homing cycle of an axis -/

/-- The seek sign of a direction. -/
def HomeDirection.sign : HomeDirection → ℤ
  | .positive => 1
  | .negative => -1

/-- The settings of a homing cycle, with its timing and the limit switches. -/
structure HomingCycle (K : Type) extends HomingConfig K where
  /-- The rate of the fast search, `$25`. -/
  seekMmMin : K
  /-- The rate of the slow search, `$24`. -/
  feedMmMin : K
  /-- The timing of the steps. -/
  motion : MotionConfig K
  /-- The limit pins are inverted, `$5`. -/
  limitInvert : Bool

/-- A switch is triggered, from the level of its pin: high, unless the pins are inverted. -/
def limitTriggered (rawHigh invert : Bool) : Bool := rawHigh ^^ invert

namespace HomingCycle

variable {K : Type} [Field K] [LinearOrder K] [FloorRing K] {axis : Fin 4}

/-- The slowest period. -/
def slowestPeriod : ℕ := 4294967295

/-- The least rate that is divided by. -/
def minPositive : K := 1 / ((2 : ℕ) : K) ^ 126

/-- The period of the steps of an axis at a rate. -/
def axisStepPeriodTicks (c : HomingCycle K) (axis : Fin 4) (rateMmMin : K) : ℕ :=
  let rateMmS := rateMmMin / ((60 : ℕ) : K)
  if rateMmS ≤ 0 ∨ c.stepsPerMm axis ≤ 0 ∨ c.motion.tickHz ≤ 0 then slowestPeriod
  else
    let period := c.motion.tickHz / max (rateMmS * c.stepsPerMm axis) minPositive
    if 0 < period then (min (roundf period) slowestPeriod).toNat else slowestPeriod

/-- Search for the switch, up to the end of the search. The switch is sampled where the axis
is. -/
def seekIntoSwitch (c : HomingCycle K) (search : ℕ) (direction : HomeDirection) (period : ℕ)
    (isHigh : ℤ → Bool) (m : AxisMachine axis) : Except HomingError Unit × AxisMachine axis :=
  match ProbeStepper.runProbe c.motion
      (singleAxisBlock axis (Int32.ofInt (direction.sign * search))) period
      (fun n => limitTriggered (isHigh (m.position + direction.sign * n)) c.limitInvert) m with
  | (.error _, m) => (.error .sink, m)
  | (.ok outcome, m) => (if outcome.triggered then .ok () else .error (.noContact axis), m)

/-- Back off the switch, without watching it. -/
def pullOff (c : HomingCycle K) (pulloff : ℕ) (sign : ℤ) (m : AxisMachine axis) :
    Except HomingError Unit × AxisMachine axis :=
  if pulloff = 0 then (.ok (), m)
  else
    match ProbeStepper.runProbe c.motion (singleAxisBlock axis (Int32.ofInt (sign * pulloff)))
        (c.axisStepPeriodTicks axis c.feedMmMin) (fun _ => false) m with
    | (.error _, m) => (.error .sink, m)
    | (.ok _, m) => (.ok (), m)

/-- The way up to the slow contact: the fast search, the first way back and the slow search. -/
def approach (c : HomingCycle K) (isHigh : ℤ → Bool) (m : AxisMachine axis) :
    Except HomingError Unit × AxisMachine axis :=
  match c.seekIntoSwitch (c.searchSteps axis) (c.direction axis)
      (c.axisStepPeriodTicks axis c.seekMmMin) isHigh m with
  | (.error e, m) => (.error e, m)
  | (.ok (), m) =>
    match c.pullOff (c.pulloffSteps axis) (-(c.direction axis).sign) m with
    | (.error e, m) => (.error e, m)
    | (.ok (), m) => c.seekIntoSwitch (c.searchSteps axis) (c.direction axis)
        (c.axisStepPeriodTicks axis c.feedMmMin) isHigh m

/-- Home an axis: the position that it is set to. -/
def homeAxis (c : HomingCycle K) (isHigh : ℤ → Bool) (m : AxisMachine axis) :
    Except HomingError Int32 × AxisMachine axis :=
  if c.searchSteps axis = 0 then (.error (.invalidConfig axis), m)
  else
    match c.approach isHigh m with
    | (.error e, m) => (.error e, m)
    | (.ok (), m) =>
      match c.pullOff (c.pulloffSteps axis) (-(c.direction axis).sign) m with
      | (.error e, m) => (.error e, m)
      | (.ok (), m) => (.ok (c.machineZeroSteps axis), m)

/-! ## Stretches -/

omit [FloorRing K] in
/-- A search is one of the stretches that a homing is made of. -/
theorem exists_seek_stretch (c : HomingCycle K) (search : ℕ) (direction : HomeDirection)
    (period : ℕ) (isHigh : ℤ → Bool) (m : AxisMachine axis) :
    ∃ stretch, (c.seekIntoSwitch search direction period isHigh m).1 =
      HomingConfig.seekIntoSwitch axis stretch := by
  unfold seekIntoSwitch
  obtain ⟨result, m'⟩ := ProbeStepper.runProbe c.motion _ period _ m
  cases result with
  | error e => exact ⟨.failed, rfl⟩
  | ok outcome =>
    cases htriggered : outcome.triggered with
    | true => exact ⟨.tripped, by simp [htriggered, HomingConfig.seekIntoSwitch]⟩
    | false => exact ⟨.finished, by simp [htriggered, HomingConfig.seekIntoSwitch]⟩

/-- A way back is one of the stretches that a homing is made of. -/
theorem exists_pullOff_stretch (c : HomingCycle K) (pulloff : ℕ) (sign : ℤ)
    (m : AxisMachine axis) :
    ∃ stretch, (c.pullOff pulloff sign m).1 = HomingConfig.pullOff pulloff stretch := by
  unfold pullOff HomingConfig.pullOff
  by_cases hzero : pulloff = 0
  · exact ⟨.finished, by rw [if_pos hzero, if_pos hzero]⟩
  · obtain ⟨result, m'⟩ := ProbeStepper.runProbe c.motion _ _ _ m
    cases result with
    | error e => exact ⟨.failed, by rw [if_neg hzero, if_neg hzero]⟩
    | ok outcome => exact ⟨.finished, by rw [if_neg hzero, if_neg hzero]⟩

/-- How far an axis is from its switch: the switch is active where this is not positive. -/
def ahead (c : HomingCycle K) (axis : Fin 4) (trip position : ℤ) : ℤ :=
  (c.direction axis).sign * (trip - position)

/-- The level of the pin of a switch that is active at and beyond its trip position. -/
def switchIsHigh (c : HomingCycle K) (axis : Fin 4) (trip position : ℤ) : Bool :=
  decide (c.ahead axis trip position ≤ 0) ^^ c.limitInvert

omit [Field K] [LinearOrder K] [FloorRing K] in
theorem limitTriggered_switchIsHigh (c : HomingCycle K) (axis : Fin 4) (trip position : ℤ) :
    limitTriggered (c.switchIsHigh axis trip position) c.limitInvert =
      decide (c.ahead axis trip position ≤ 0) := by
  unfold limitTriggered switchIsHigh
  rw [Bool.xor_assoc, Bool.xor_self, Bool.xor_false]

theorem sign_eq (direction : HomeDirection) : direction.sign = 1 ∨ direction.sign = -1 := by
  cases direction
  · exact .inl rfl
  · exact .inr rfl

omit [Field K] [LinearOrder K] [FloorRing K] in
/-- Steps towards the switch. -/
theorem ahead_add (c : HomingCycle K) (axis : Fin 4) (trip position n : ℤ) :
    c.ahead axis trip (position + (c.direction axis).sign * n) = c.ahead axis trip position - n := by
  unfold ahead
  obtain h | h := sign_eq (c.direction axis) <;> rw [h] <;> omega

omit [FloorRing K] in
/-- A search goes up to the switch, or to its end. -/
theorem seekIntoSwitch_eq {c : HomingCycle K} (husable : ¬c.motion.Unusable) {search : ℕ}
    (hsearch : 0 < search) (hmax : (search : ℤ) ≤ i32Max) (trip : ℤ) (period : ℕ)
    (m : AxisMachine axis) :
    ∃ m' : AxisMachine axis,
      m'.position = m.position + (c.direction axis).sign *
        (min (c.ahead axis trip m.position).toNat search : ℕ) ∧
      m'.ticks = m.ticks + min (c.ahead axis trip m.position).toNat search ∧
      c.seekIntoSwitch search (c.direction axis) period (c.switchIsHigh axis trip) m =
        (if c.ahead axis trip m.position ≤ search then .ok () else .error (.noContact axis), m') := by
  have hedge (n : ℕ) : limitTriggered (c.switchIsHigh axis trip
      (m.position + (c.direction axis).sign * n)) c.limitInvert =
        decide (c.ahead axis trip m.position ≤ n) := by
    rw [limitTriggered_switchIsHigh, ahead_add]
    exact decide_eq_decide.mpr (by omega)
  obtain ⟨n, hn, hbefore, hstop, m', hposition, hticks, hrun⟩ :=
    ProbeStepper.runProbe_signed husable (sign_eq (c.direction axis)) hsearch hmax period
      (fun n => limitTriggered (c.switchIsHigh axis trip
        (m.position + (c.direction axis).sign * n)) c.limitInvert) m
  simp only [hedge, decide_eq_false_iff_not, decide_eq_true_eq] at hbefore hstop
  have hwalked : n = min (c.ahead axis trip m.position).toNat search := by
    have hle : n ≤ (c.ahead axis trip m.position).toNat := by
      by_contra hlt
      exact hbefore _ (not_le.mp hlt) (Int.self_le_toNat _)
    by_cases hlt : n < search
    · have := hstop hlt
      omega
    · omega
  refine ⟨m', hwalked ▸ hposition, hwalked ▸ hticks, ?_⟩
  unfold seekIntoSwitch
  rw [hrun]
  dsimp only
  rw [hedge]
  have hreached : c.ahead axis trip m.position ≤ n ↔ c.ahead axis trip m.position ≤ search := by
    omega
  by_cases h : c.ahead axis trip m.position ≤ search
  · rw [if_pos h, if_pos (decide_eq_true (hreached.mpr h))]
  · rw [if_neg h, if_neg (by simpa using fun hle => h (hreached.mp hle))]

/-- A way back is made whole. -/
theorem pullOff_eq {c : HomingCycle K} (husable : ¬c.motion.Unusable) {pulloff : ℕ}
    (hmax : (pulloff : ℤ) ≤ i32Max) {sign : ℤ} (hsign : sign = 1 ∨ sign = -1)
    (m : AxisMachine axis) :
    ∃ m' : AxisMachine axis, m'.position = m.position + sign * pulloff ∧
      m'.ticks = m.ticks + pulloff ∧ c.pullOff pulloff sign m = (.ok (), m') := by
  unfold pullOff
  by_cases hzero : pulloff = 0
  · exact ⟨m, by simp [hzero], by simp [hzero], if_pos hzero⟩
  · obtain ⟨n, hn, -, hstop, m', hposition, hticks, hrun⟩ :=
      ProbeStepper.runProbe_signed husable hsign (Nat.pos_of_ne_zero hzero) hmax
        (c.axisStepPeriodTicks axis c.feedMmMin) (fun _ => false) m
    have hall : n = pulloff := by
      by_contra hne
      exact Bool.false_ne_true (hstop (lt_of_le_of_ne hn hne))
    rw [if_neg hzero, hrun]
    exact ⟨m', hall ▸ hposition, hall ▸ hticks, rfl⟩

/-! ## The position of a homed axis -/

theorem mmToStepsSafe_le (mm stepsPerMm : K) : (mmToStepsSafe mm stepsPerMm : ℤ) ≤ i32Max := by
  unfold mmToStepsSafe
  dsimp only
  split
  · rw [Int.toNat_of_nonneg (le_min (le_of_lt ‹_›) (by decide))]
    exact min_le_right _ _
  · decide

/-- How far beyond its switch an axis is. -/
def beyond (c : HomingCycle K) (axis : Fin 4) (trip position : ℤ) : ℕ :=
  (-c.ahead axis trip position).toNat

/-- The searches of an axis reach its switch. -/
structure Reaches (c : HomingCycle K) (trip : ℤ) (m : AxisMachine axis) : Prop where
  /-- The timing is usable. -/
  usable : ¬c.motion.Unusable
  /-- There is a search. -/
  search : c.searchSteps axis ≠ 0
  /-- The fast search reaches the switch. -/
  seek : c.ahead axis trip m.position ≤ c.searchSteps axis
  /-- The slow search reaches the switch. -/
  locate : c.pulloffSteps axis ≤ c.searchSteps axis + c.beyond axis trip m.position

/-- The way up to the slow contact. It ends at the switch, or where it is begun if that is
beyond the switch. -/
theorem approach_eq {c : HomingCycle K} (husable : ¬c.motion.Unusable)
    (hsearch : c.searchSteps axis ≠ 0) (trip : ℤ) (m : AxisMachine axis) :
    ∃ m' : AxisMachine axis,
      m'.ticks ≤ m.ticks + 2 * c.searchSteps axis + c.pulloffSteps axis ∧
      (c.Reaches trip m → c.approach (c.switchIsHigh axis trip) m = (.ok (), m') ∧
        c.ahead axis trip m'.position =
          min (c.pulloffSteps axis - c.beyond axis trip m.position : ℤ) 0) ∧
      (¬c.Reaches trip m → c.approach (c.switchIsHigh axis trip) m =
        (.error (.noContact axis), m')) := by
  have hpos := Nat.pos_of_ne_zero hsearch
  have hmax : (c.searchSteps axis : ℤ) ≤ i32Max := mmToStepsSafe_le _ _
  have hmax' : (c.pulloffSteps axis : ℤ) ≤ i32Max := mmToStepsSafe_le _ _
  obtain ⟨m₁, hposition₁, hticks₁, hseek⟩ := seekIntoSwitch_eq husable hpos hmax trip
    (c.axisStepPeriodTicks axis c.seekMmMin) m
  have hopposite : -(c.direction axis).sign = 1 ∨ -(c.direction axis).sign = -1 := by
    obtain h | h := sign_eq (c.direction axis) <;> rw [h] <;> simp
  obtain ⟨m₂, hposition₂, hticks₂, hback⟩ := pullOff_eq husable hmax' hopposite m₁
  obtain ⟨m₃, hposition₃, hticks₃, hlocate⟩ := seekIntoSwitch_eq husable hpos hmax trip
    (c.axisStepPeriodTicks axis c.feedMmMin) m₂
  have hahead₁ : c.ahead axis trip m₁.position = c.ahead axis trip m.position -
      (min (c.ahead axis trip m.position).toNat (c.searchSteps axis) : ℕ) := by
    rw [hposition₁, ahead_add]
  have hahead₂ : c.ahead axis trip m₂.position =
      c.ahead axis trip m₁.position + c.pulloffSteps axis := by
    rw [hposition₂, neg_mul, ← mul_neg, ahead_add, sub_neg_eq_add]
  have hahead₃ : c.ahead axis trip m₃.position = c.ahead axis trip m₂.position -
      (min (c.ahead axis trip m₂.position).toNat (c.searchSteps axis) : ℕ) := by
    rw [hposition₃, ahead_add]
  by_cases hcontact : c.ahead axis trip m.position ≤ c.searchSteps axis
  · have happroach : c.approach (c.switchIsHigh axis trip) m =
        c.seekIntoSwitch (c.searchSteps axis) (c.direction axis)
          (c.axisStepPeriodTicks axis c.feedMmMin) (c.switchIsHigh axis trip) m₂ := by
      unfold approach
      rw [hseek, if_pos hcontact]
      dsimp only
      rw [hback]
    rw [happroach, hlocate]
    refine ⟨m₃, by omega, fun hreaches => ?_, fun hnot => ?_⟩
    · have hagain := hreaches.locate
      unfold beyond at hagain ⊢
      rw [if_pos (by omega)]
      exact ⟨rfl, by omega⟩
    · have hagain : ¬c.pulloffSteps axis ≤ c.searchSteps axis + c.beyond axis trip m.position :=
        fun h => hnot ⟨husable, hsearch, hcontact, h⟩
      unfold beyond at hagain
      rw [if_neg (by omega)]
  · have happroach : c.approach (c.switchIsHigh axis trip) m = (.error (.noContact axis), m₁) := by
      unfold approach
      rw [hseek, if_neg hcontact]
    exact ⟨m₁, by omega, fun hreaches => absurd hreaches.seek hcontact, fun _ => happroach⟩

/-- What the homing of an axis promises. -/
structure Homes (c : HomingCycle K) (trip : ℤ) (m : AxisMachine axis) : Prop where
  /-- It ends after a bounded number of steps. -/
  bounded : (c.homeAxis (c.switchIsHigh axis trip) m).2.ticks ≤
    m.ticks + 2 * c.searchSteps axis + 2 * c.pulloffSteps axis
  /-- The switch of a homed axis is released. -/
  released : ∀ zero, (c.homeAxis (c.switchIsHigh axis trip) m).1 = .ok zero →
    limitTriggered (c.switchIsHigh axis trip
      (c.homeAxis (c.switchIsHigh axis trip) m).2.position) c.limitInvert = false
  /-- A homed axis stands a pull-off away from where the slow search found the switch. -/
  standsOff : ∀ zero, (c.homeAxis (c.switchIsHigh axis trip) m).1 = .ok zero →
    (c.homeAxis (c.switchIsHigh axis trip) m).2.position =
      (c.approach (c.switchIsHigh axis trip) m).2.position -
        (c.direction axis).sign * c.pulloffSteps axis

/-- An axis whose searches reach the switch is homed, a pull-off away from the slow contact. -/
theorem homeAxis_of_reaches {c : HomingCycle K} {trip : ℤ} {m : AxisMachine axis}
    (h : c.Reaches trip m) : ∃ latched m' : AxisMachine axis,
      c.approach (c.switchIsHigh axis trip) m = (.ok (), latched) ∧
      c.homeAxis (c.switchIsHigh axis trip) m = (.ok (c.machineZeroSteps axis), m') ∧
      m'.ticks ≤ m.ticks + 2 * c.searchSteps axis + 2 * c.pulloffSteps axis ∧
      m'.position = latched.position - (c.direction axis).sign * c.pulloffSteps axis ∧
      c.ahead axis trip latched.position =
        min (c.pulloffSteps axis - c.beyond axis trip m.position : ℤ) 0 := by
  obtain ⟨latched, hticks, hok, -⟩ := approach_eq h.usable h.search trip m
  obtain ⟨happroach, hahead⟩ := hok h
  have hopposite : -(c.direction axis).sign = 1 ∨ -(c.direction axis).sign = -1 := by
    obtain h | h := sign_eq (c.direction axis) <;> rw [h] <;> simp
  have hmax : (c.pulloffSteps axis : ℤ) ≤ i32Max := mmToStepsSafe_le _ _
  obtain ⟨m', hposition, hticks', hback⟩ := pullOff_eq h.usable hmax hopposite latched
  refine ⟨latched, m', happroach, ?_, ?_, ?_, hahead⟩
  · unfold homeAxis
    rw [if_neg h.search, happroach]
    dsimp only
    rw [hback]
  · have hpulloff : m'.ticks = latched.ticks + c.pulloffSteps axis := hticks'
    omega
  · rw [hposition, neg_mul, sub_eq_add_neg]

/-- An axis whose searches do not reach the switch is not homed. -/
theorem homeAxis_of_not_reaches {c : HomingCycle K} {trip : ℤ} {m : AxisMachine axis}
    (h : ¬c.Reaches trip m) : ∃ e, ∃ m' : AxisMachine axis,
      c.homeAxis (c.switchIsHigh axis trip) m = (.error e, m') ∧
      m'.ticks ≤ m.ticks + 2 * c.searchSteps axis + 2 * c.pulloffSteps axis := by
  unfold homeAxis
  by_cases hsearch : c.searchSteps axis = 0
  · exact ⟨_, m, if_pos hsearch, by omega⟩
  rw [if_neg hsearch]
  by_cases husable : c.motion.Unusable
  · refine ⟨.sink, m, ?_, by omega⟩
    have happroach : c.approach (c.switchIsHigh axis trip) m = (.error .sink, m) := by
      unfold approach seekIntoSwitch ProbeStepper.runProbe
      rw [if_pos husable]
    rw [happroach]
  · obtain ⟨m', hticks, -, herror⟩ := approach_eq husable hsearch trip m
    rw [herror h]
    exact ⟨_, m', rfl, by omega⟩

/-- **An axis is homed off its switch if and only if it starts less than two pull-offs beyond
it, and at the trip position of the switch if and only if it starts no more than one pull-off
beyond it.** An axis whose searches do not reach the switch is not homed. -/
theorem homeAxis_homes_iff (c : HomingCycle K) (trip : ℤ) (m : AxisMachine axis) :
    (c.Homes trip m ↔
      (c.Reaches trip m → c.beyond axis trip m.position < 2 * c.pulloffSteps axis)) ∧
    ((∀ zero, (c.homeAxis (c.switchIsHigh axis trip) m).1 = .ok zero →
        (c.approach (c.switchIsHigh axis trip) m).2.position = trip) ↔
      (c.Reaches trip m → c.beyond axis trip m.position ≤ c.pulloffSteps axis)) := by
  by_cases hreaches : c.Reaches trip m
  · obtain ⟨latched, m', happroach, hhome, hticks, hposition, hahead⟩ :=
      homeAxis_of_reaches hreaches
    have hfinal : c.ahead axis trip m'.position =
        c.ahead axis trip latched.position + c.pulloffSteps axis := by
      rw [hposition, sub_eq_add_neg, ← mul_neg, ahead_add, sub_neg_eq_add]
    refine ⟨⟨fun hhomes _ => ?_, fun h => ⟨?_, ?_, ?_⟩⟩, ⟨fun h _ => ?_, fun h zero _ => ?_⟩⟩
    · have hreleased := hhomes.released _ (congrArg Prod.fst hhome)
      rw [hhome, limitTriggered_switchIsHigh, decide_eq_false_iff_not] at hreleased
      dsimp only at hreleased
      omega
    · rwa [hhome]
    · intro zero _
      have hclose := h hreaches
      rw [hhome, limitTriggered_switchIsHigh, decide_eq_false_iff_not]
      dsimp only
      omega
    · intro zero _
      rw [hhome, happroach]
      exact hposition
    · have htrip := h _ (congrArg Prod.fst hhome)
      rw [happroach] at htrip
      have hzero : c.ahead axis trip latched.position = 0 := by
        unfold ahead
        rw [htrip, sub_self, mul_zero]
      omega
    · have hclose := h hreaches
      rw [happroach]
      have hzero : c.ahead axis trip latched.position = 0 := by omega
      unfold ahead at hzero
      obtain hsign | hsign := sign_eq (c.direction axis) <;> rw [hsign] at hzero <;>
        dsimp only <;> omega
  · obtain ⟨e, m', hhome, hticks⟩ := homeAxis_of_not_reaches hreaches
    have hnever (zero : Int32) : (c.homeAxis (c.switchIsHigh axis trip) m).1 ≠ .ok zero := by
      rw [hhome]
      exact fun h => by cases h
    refine ⟨⟨fun _ h => absurd h hreaches, fun _ => ⟨?_, ?_, ?_⟩⟩,
      ⟨fun _ h => absurd h hreaches, fun _ zero h => absurd h (hnever zero)⟩⟩
    · rwa [hhome]
    · exact fun zero h => absurd h (hnever zero)
    · exact fun zero h => absurd h (hnever zero)

/-- A step to a millimetre, and a pull-off of one. -/
def oneStep : HomingCycle ℚ where
  stepsPerMm := fun _ => 1
  maxTravelMm := fun _ => 10
  pulloffMm := 1
  direction := fun _ => .positive
  forceSetOrigin := false
  seekMmMin := 500
  feedMmMin := 100
  motion := ⟨1000000, 10, 2⟩
  limitInvert := false

/-- An axis that starts five steps beyond its switch is homed with the switch triggered. -/
theorem not_homes : ¬∀ (c : HomingCycle ℚ) (axis : Fin 4) (trip : ℤ) (m : AxisMachine axis),
    c.Homes trip m := by
  intro hall
  have hhome : oneStep.homeAxis (oneStep.switchIsHigh xAxis 0) (⟨5, true, 0⟩ : AxisMachine xAxis) =
      (.ok (-1), ⟨3, false, 2⟩) := by decide +kernel
  have hreleased := (hall oneStep xAxis 0 ⟨5, true, 0⟩).released (-1) (congrArg Prod.fst hhome)
  rw [hhome] at hreleased
  exact absurd hreleased (by decide +kernel)

end HomingCycle

/-! ## The cycles of the settings -/

namespace Settings

variable {K : Type} [Field K] [LinearOrder K] [FloorRing K]

/-- The homing cycle of the settings. -/
def homingCycle (s : Settings) (tickHz : K) : HomingCycle K where
  toHomingConfig := s.homingConfig
  seekMmMin := (s.homingSeekMmMin.toRat : K)
  feedMmMin := (s.homingFeedMmMin.toRat : K)
  motion := s.motionConfig tickHz
  limitInvert := s.limitInvert

/-- The timing of the settings is usable. -/
theorem usable_homingCycle (s : Settings) {tickHz : K} (h : 0 < tickHz) :
    ¬(s.homingCycle tickHz).motion.Unusable := by
  rintro (hle | hzero)
  · exact absurd h (not_lt.mpr hle)
  · exact absurd hzero (Nat.succ_ne_zero _)

end Settings

end Galdr
