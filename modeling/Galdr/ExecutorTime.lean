import Galdr.Executor
import Galdr.LibmReal

/-!
# The estimated and the executed time of a block

The estimator runs through the same ticks as the executor, without a ceiling.
The executor cuts the speeds of every block but a rapid to the slowest axis's
greatest rate. As cutting the speeds cuts the envelope, a tick of the executor
is the tick of the estimator or the tick at the ceiling, whichever is longer:
the two times agree if and only if no tick of the block is shorter than the
tick at the ceiling (`estimateBlockTime_eq_iff`).
-/

namespace Galdr

open Executor

variable {K : Type} [Field K] [LinearOrder K] [FloorRing K] [Libm K]

/-- How long the executor runs a block without overrides, in seconds: the periods of
the ticks it emits. -/
def executedSeconds (config : MotionConfig K) (maxRateMmMin : Axes K) (block : Block K)
    (exitSpeedSq : K) : K :=
  let run := runBlock config Overrides.new maxRateMmMin block exitSpeedSq RecordingSink.new
  (((run.sink.allTicks.map StepEvent.periodTicks).sum : ℕ) : K) / config.tickHz

/-- The squared speed that the plan gives a tick: the least of the cruise and the two
ramps, at the midpoint of the step. -/
def plannedSpeedSq (block : Block K) (exitSpeedSq : K) (tick : ℕ) : K :=
  Trapezoid.envelope block.nominalSpeedSq block.entrySpeedSq exitSpeedSq
    (2 * block.acceleration) block.millimeters
    (((tick : K) + 1 / 2) / (block.stepEventCount : K) * block.millimeters)

/-- The ceiling of a block changes none of its ticks: the plan is within the ceiling,
or above it by less than makes a difference to the timer. -/
def CeilingUnseen (config : MotionConfig K) (maxRateMmMin : Axes K) (block : Block K)
    (exitSpeedSq : K) : Prop :=
  let timing := StepTiming.forBlock config block (dominantAxis block.steps)
  ∀ tick < block.stepEventCount, ∀ ceilingSq : K,
    maxSpeedSq maxRateMmMin block = ceilingSq →
      plannedSpeedSq block exitSpeedSq tick ≤ ceilingSq
        ∨ timing.periodTicks ceilingSq
          = timing.periodTicks (plannedSpeedSq block exitSpeedSq tick)

/-! ## Sums of periods -/

omit [FloorRing K] [Libm K] in
/-- Sums of which one is term by term the greater are equal if and only if all their
terms are. -/
theorem sum_range_eq_iff {f g : ℕ → ℕ} {n : ℕ} (h : ∀ i < n, f i ≤ g i) :
    ((List.range n).map f).sum = ((List.range n).map g).sum ↔ ∀ i < n, f i = g i := by
  have hsum : ∀ f : ℕ → ℕ, ((List.range n).map f).sum = ∑ i ∈ Finset.range n, f i :=
    fun _ => rfl
  rw [hsum, hsum, Finset.sum_eq_sum_iff_of_le fun i hi => h i (Finset.mem_range.1 hi)]
  exact forall_congr' fun i => by rw [Finset.mem_range]

/-! ## Ticks of the executor -/

section Ticks

variable [IsStrictOrderedRing K]

omit [FloorRing K] [Libm K] in
/-- Without an override the scale is one. -/
theorem overrideScale_new (block : Block K) : overrideScale .new block = 1 := by
  unfold overrideScale Overrides.new
  rw [ite_self]
  norm_num

omit [FloorRing K] [Libm K] in
/-- Without an override a speed is only cut to the ceiling. -/
theorem executedSpeedSq_new (maxRateMmMin : Axes K) (block : Block K) {speedSq : K}
    (h : 0 ≤ speedSq) :
    executedSpeedSq .new maxRateMmMin block speedSq
      = capBy (maxSpeedSq maxRateMmMin block) speedSq := by
  unfold executedSpeedSq
  rw [overrideScale_new, mul_one, mul_one, clampSpeedSq_of_nonneg h]

omit [FloorRing K] [Libm K] in
/-- **A ceiling on the speeds is a ceiling on the envelope**, also when there is none. -/
theorem capBy_envelope {cruise entry exit slope length d : K} (hslope : 0 ≤ slope)
    (h0 : 0 ≤ d) (hd : d ≤ length) (ceilingSq : WithTop K) :
    capBy ceilingSq (Trapezoid.envelope cruise entry exit slope length d)
      = Trapezoid.envelope (capBy ceilingSq cruise) (capBy ceilingSq entry)
          (capBy ceilingSq exit) slope length d := by
  cases ceilingSq with
  | top => rfl
  | coe c => exact Trapezoid.min_envelope hslope h0 hd c

omit [FloorRing K] [Libm K] in
/-- The midpoints of the steps are inside the block. -/
theorem midpoint_mem {tick total : ℕ} (htick : tick < total) {length : K}
    (hlength : 0 < length) :
    0 < ((tick : K) + 1 / 2) / (total : K) * length
      ∧ ((tick : K) + 1 / 2) / (total : K) * length ≤ length := by
  have htotal : (0 : K) < total := Nat.cast_pos.2 (Nat.zero_lt_of_lt htick)
  have hmid : (0 : K) < (tick : K) + 1 / 2 := by positivity
  have hnext : (tick : K) + 1 ≤ total := by exact_mod_cast htick
  have hfrac : ((tick : K) + 1 / 2) / (total : K) ≤ 1 := by
    rw [div_le_one htotal]
    linarith
  exact ⟨mul_pos (div_pos hmid htotal) hlength, mul_le_of_le_one_left hlength.le hfrac⟩

variable {block : Block K} {exitSq : K}

omit [FloorRing K] [Libm K] in
/-- The speed of a planned tick is a squared speed. -/
theorem plannedSpeedSq_nonneg
    (h : Runnable block block.entrySpeedSq block.nominalSpeedSq exitSq) {tick : ℕ}
    (htick : tick < block.stepEventCount) : 0 ≤ plannedSpeedSq block exitSq tick := by
  obtain ⟨h0, hd⟩ := midpoint_mem htick h.millimeters_pos
  have hup := mul_nonneg h.slope_pos.le h0.le
  have hdown := mul_nonneg h.slope_pos.le (sub_nonneg.2 hd)
  exact le_min (h.entry_nonneg.trans h.entry_le)
    (le_min (add_nonneg h.entry_nonneg hup) (add_nonneg h.exit_nonneg hdown))

/-- **A tick of the estimator** is at the planned speed. -/
theorem tickPeriod_estimate
    (h : Runnable block block.entrySpeedSq block.nominalSpeedSq exitSq)
    (timing : StepTiming K) {tick : ℕ} (htick : tick < block.stepEventCount) :
    tickPeriod timing (.planScaled block
        ⟨max block.entrySpeedSq 0, max block.nominalSpeedSq 0⟩ (max exitSq 0)) tick
        block.stepEventCount
      = timing.periodTicks (plannedSpeedSq block exitSq tick) := by
  obtain ⟨h0, hd⟩ := midpoint_mem htick h.millimeters_pos
  have hlength : (TrapezoidProfile.planScaled block
      ⟨block.entrySpeedSq, block.nominalSpeedSq⟩ exitSq).length = block.millimeters := by
    rw [h.planScaled_eq]
    split <;> rfl
  rw [max_eq_left h.entry_nonneg, max_eq_left (h.entry_nonneg.trans h.entry_le),
    max_eq_left h.exit_nonneg]
  unfold tickPeriod TrapezoidProfile.travelAtStep
  rw [hlength, h.velocitySqAt_of_pos h0 hd]
  rfl

/-- **A tick of the executor** is at the planned speed, cut to the ceiling. -/
theorem tickPeriod_executed
    (h : Runnable block block.entrySpeedSq block.nominalSpeedSq exitSq)
    (maxRateMmMin : Axes K) (timing : StepTiming K) {tick : ℕ}
    (htick : tick < block.stepEventCount) :
    tickPeriod timing (executedProfile .new maxRateMmMin block exitSq) tick
        block.stepEventCount
      = timing.periodTicks
          (capBy (maxSpeedSq maxRateMmMin block) (plannedSpeedSq block exitSq tick)) := by
  obtain ⟨h0, hd⟩ := midpoint_mem htick h.millimeters_pos
  have hrun := runnable_executed h .new maxRateMmMin
  have hlength : (executedProfile .new maxRateMmMin block exitSq).length
      = block.millimeters := by
    rw [executedProfile_eq, hrun.planScaled_eq]
    split <;> rfl
  unfold tickPeriod TrapezoidProfile.travelAtStep
  rw [hlength, executedProfile_eq, hrun.velocitySqAt_of_pos h0 hd]
  unfold plannedSpeedSq
  rw [capBy_envelope h.slope_pos.le h0.le hd, executedSpeedSq_new _ _ h.entry_nonneg,
    executedSpeedSq_new _ _ (h.entry_nonneg.trans h.entry_le),
    executedSpeedSq_new _ _ h.exit_nonneg]

end Ticks

/-! ## The two sums -/

/-- Cutting a speed to a ceiling keeps the period if and only if the speed is within
the ceiling or has the period of the ceiling. -/
theorem periodTicks_capBy_eq_iff (timing : StepTiming K) (ceilingSq : WithTop K)
    (speedSq : K) :
    timing.periodTicks (capBy ceilingSq speedSq) = timing.periodTicks speedSq
      ↔ ∀ c : K, ceilingSq = c →
        speedSq ≤ c ∨ timing.periodTicks c = timing.periodTicks speedSq := by
  cases ceilingSq with
  | top => exact iff_of_true rfl fun c h => absurd h.symm (WithTop.coe_ne_top)
  | coe c =>
    have hone : (∀ c' : K, ((c : K) : WithTop K) = c' →
          speedSq ≤ c' ∨ timing.periodTicks c' = timing.periodTicks speedSq)
        ↔ speedSq ≤ c ∨ timing.periodTicks c = timing.periodTicks speedSq :=
      ⟨fun h => h c rfl, fun h c' hc => WithTop.coe_inj.1 hc ▸ h⟩
    rw [hone, capBy_coe]
    rcases le_total speedSq c with hle | hle
    · rw [min_eq_right hle]
      exact iff_of_true rfl (Or.inl hle)
    · rw [min_eq_left hle]
      constructor
      · exact Or.inr
      · rintro (h | h)
        · rw [le_antisymm h hle]
        · exact h

section Agreement

variable [IsStrictOrderedRing K]

/-- **Cutting a speed to a ceiling does not shorten a tick.** -/
theorem periodTicks_le_capBy [LawfulLibm K] (timing : StepTiming K)
    (hrate : 0 < timing.maxRateHz) (hz : 0 < timing.tickHz) {ceilingSq : WithTop K}
    (hceiling : 0 < ceilingSq) {speedSq : K} (hspeed : 0 ≤ speedSq) :
    timing.periodTicks speedSq ≤ timing.periodTicks (capBy ceilingSq speedSq) := by
  rcases hspeed.eq_or_lt with rfl | hpos
  · cases ceilingSq with
    | top => exact le_rfl
    | coe c => rw [capBy_coe, min_eq_right (WithTop.coe_pos.1 hceiling).le]
  · refine periodTicks_antitone timing hrate hz ?_ (capBy_le ceilingSq speedSq)
    cases ceilingSq with
    | top => exact hpos
    | coe c => exact lt_min (WithTop.coe_pos.1 hceiling) hpos

omit [FloorRing K] [Libm K] in
/-- The greatest step rate of a usable timing is positive. -/
theorem MotionConfig.maxStepRateHz_pos {config : MotionConfig K}
    (husable : ¬config.Unusable) : 0 < config.maxStepRateHz := by
  obtain ⟨hz, hperiod⟩ := not_or.1 husable
  exact div_pos (not_le.1 hz) (Nat.cast_pos.2 (Nat.pos_of_ne_zero hperiod))

omit [IsStrictOrderedRing K] in
/-- The executed time is the time of the ticks of the executed profile. -/
theorem executedSeconds_eq {config : MotionConfig K} (husable : ¬config.Unusable)
    {block : Block K} (hevents : block.stepEventCount = dominantSteps block.steps)
    (hmove : block.stepEventCount ≠ 0) (maxRateMmMin : Axes K) (exitSpeedSq : K) :
    executedSeconds config maxRateMmMin block exitSpeedSq
      = ((((List.range block.stepEventCount).map fun tick =>
          tickPeriod (.forBlock config block (dominantAxis block.steps))
            (executedProfile .new maxRateMmMin block exitSpeedSq) tick
            block.stepEventCount).sum : ℕ) : K) / config.tickHz := by
  unfold executedSeconds runBlock
  rw [SegmentGenerator.runBlockScaled_recording husable hevents hmove]
  dsimp only
  have hticks : ∀ period : ℕ → ℕ, (⟨[.ofSteps block.steps], SegmentGenerator.toBursts []
      (ddaEvents block.steps period 0 block.stepEventCount)⟩ : RecordingSink).allTicks
        = ddaEvents block.steps period 0 block.stepEventCount :=
    fun period => SegmentGenerator.flatten_toBursts [] _
  rw [hticks]
  unfold ddaEvents
  rw [List.map_map, ← List.range_eq_range']
  rfl

omit [IsStrictOrderedRing K] in
/-- A block that is not run takes no time, and is estimated to. -/
theorem estimateBlockTime_of_idle {config : MotionConfig K} {block : Block K}
    (hidle : config.Unusable ∨ block.stepEventCount = 0) (maxRateMmMin : Axes K)
    (exitSpeedSq : K) :
    estimateBlockTime block exitSpeedSq config
      = executedSeconds config maxRateMmMin block exitSpeedSq := by
  have hzero : (((([] : List StepEvent).map StepEvent.periodTicks).sum : ℕ) : K)
      / config.tickHz = 0 := by
    rw [List.map_nil, List.sum_nil, Nat.cast_zero, zero_div]
  unfold estimateBlockTime executedSeconds runBlock SegmentGenerator.runBlockScaled
  by_cases husable : config.Unusable
  · rw [if_pos husable, if_pos husable]
    exact hzero.symm
  · have hnone := hidle.resolve_left husable
    rw [if_neg husable, if_neg husable, if_pos hnone, if_pos hnone]
    exact hzero.symm

/-- The estimated and the executed time of a sound block agree if and only if the
ceiling changes none of its ticks. -/
theorem estimateBlockTime_eq_iff_of_runnable [LawfulLibm K] (config : MotionConfig K)
    (maxRateMmMin : Axes K) {block : Block K} {exitSq : K}
    (hevents : block.stepEventCount = dominantSteps block.steps)
    (h : Runnable block block.entrySpeedSq block.nominalSpeedSq exitSq) :
    estimateBlockTime block exitSq config = executedSeconds config maxRateMmMin block exitSq
      ↔ config.Unusable ∨ CeilingUnseen config maxRateMmMin block exitSq := by
  by_cases husable : config.Unusable
  · exact iff_of_true (estimateBlockTime_of_idle (Or.inl husable) _ _) (Or.inl husable)
  rw [or_iff_right husable]
  by_cases hmove : block.stepEventCount = 0
  · refine iff_of_true (estimateBlockTime_of_idle (Or.inr hmove) _ _) fun tick htick => ?_
    rw [hmove] at htick
    exact absurd htick (Nat.not_lt_zero tick)
  have hz : 0 < config.tickHz := not_le.1 (not_or.1 husable).1
  set timing := StepTiming.forBlock config block (dominantAxis block.steps) with htiming
  rw [executedSeconds_eq husable hevents hmove]
  unfold estimateBlockTime
  rw [if_neg husable, if_neg hmove, div_left_inj' hz.ne', Nat.cast_inj]
  have hterm : ∀ tick < block.stepEventCount,
      tickPeriod timing (.planScaled block
          ⟨max block.entrySpeedSq 0, max block.nominalSpeedSq 0⟩ (max exitSq 0)) tick
          block.stepEventCount
        ≤ tickPeriod timing (executedProfile .new maxRateMmMin block exitSq) tick
          block.stepEventCount := by
    intro tick htick
    rw [tickPeriod_estimate h timing htick, tickPeriod_executed h maxRateMmMin timing htick]
    exact periodTicks_le_capBy timing (MotionConfig.maxStepRateHz_pos husable) hz
      (maxSpeedSq_pos maxRateMmMin block) (plannedSpeedSq_nonneg h htick)
  refine (sum_range_eq_iff hterm).trans (forall₂_congr fun tick htick => ?_)
  rw [tickPeriod_estimate h timing htick, tickPeriod_executed h maxRateMmMin timing htick,
    eq_comm]
  exact periodTicks_capBy_eq_iff timing _ _

/-- **The estimated and the executed time of every planned block agree if and only if
the ceiling changes none of its ticks**, or the timing is unusable and the
block does not run. -/
theorem estimateBlockTime_eq_iff [LawfulLibm K] (plannerConfig : PlannerConfig K)
    (ops : List (PlannerOp K)) (config : MotionConfig K) (maxRateMmMin : Axes K)
    {block : Block K} {exitSq : K} {p : Planner K}
    (htake : (ops.foldl Planner.apply (.new plannerConfig)).takeBlock
      = some (block, exitSq, p)) :
    estimateBlockTime block exitSq config = executedSeconds config maxRateMmMin block exitSq
      ↔ config.Unusable ∨ CeilingUnseen config maxRateMmMin block exitSq := by
  obtain ⟨hsound, hrun⟩ := (Planner.entered_run plannerConfig ops).runnable _
    (Planner.takeBlock_eq_some htake)
  exact estimateBlockTime_eq_iff_of_runnable config maxRateMmMin hsound.events hrun

end Agreement

/-- A 10 mm move over the reals, as it is taken: the condition decides. -/
theorem estimateBlockTime_eq_iff_bench :
    ∃ (block : Block ℝ) (exitSq : ℝ) (p : Planner ℝ),
      (([.plan (.moveX false 10 600) none] : List (PlannerOp ℝ)).foldl Planner.apply
          (.new benchConfig)).takeBlock = some (block, exitSq, p)
        ∧ (estimateBlockTime block exitSq ⟨1000000, 10, 2⟩
            = executedSeconds ⟨1000000, 10, 2⟩ (fun _ => 6000) block exitSq
          ↔ MotionConfig.Unusable (⟨1000000, 10, 2⟩ : MotionConfig ℝ)
            ∨ CeilingUnseen ⟨1000000, 10, 2⟩ (fun _ => 6000) block exitSq) := by
  obtain ⟨block, exitSq, p, htake⟩ := Planner.exists_takeBlock_bench false 600
  exact ⟨block, exitSq, p, htake, estimateBlockTime_eq_iff benchConfig
    [.plan (.moveX false 10 600) none] ⟨1000000, 10, 2⟩ (fun _ => 6000) htake⟩

/-- A machine with a slow Z axis. -/
def slowZConfig : PlannerConfig ℚ where
  stepsPerMm _ := 100
  maxRateMmMin := ![6000, 6000, 300, 6000]
  accelMmS2 _ := 10000
  junctionDeviationMm := 1 / 100
  arcToleranceMm := 2 / 1000
  rotaryMask := 8
  stepsPerMm_pos _ := by norm_num
  maxRateMmMin_pos axis := by fin_cases axis <;> decide +kernel
  accelMmS2_pos _ := by norm_num
  junctionDeviationMm_nonneg := by norm_num
  arcToleranceMm_pos := by norm_num

/-- A feed move of one step along X. -/
def slowZRun : List (PlannerOp ℚ) := [.plan (.moveX false (1 / 100) 2400) none]

/-- **A move along X is run at the rate of the Z axis**, which the estimate does not
know: it takes 2 ms and is estimated at 1 ms. -/
theorem estimateBlockTime_too_short :
    (slowZRun.foldl Planner.apply (.new slowZConfig)).takeBlock.map (fun taken =>
        (estimateBlockTime taken.1 taken.2.1 MotionConfig.default,
          executedSeconds MotionConfig.default slowZConfig.maxRateMmMin taken.1 taken.2.1))
      = some (1 / 1000, 2 / 1000) := by
  decide +kernel

end Galdr
