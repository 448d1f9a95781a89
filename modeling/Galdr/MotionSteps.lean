import Galdr.Motion

/-!
# Steps are conserved

The ticks of a walk depend on the steps of the block alone, the periods apart:
tick `n` steps an axis when that axis's accumulator marks it (`ddaMask`). So
neither an override nor a ceiling changes what is stepped, and the generator
and the probe stepper agree. A whole walk steps each axis exactly as often as
the block says, every prefix is within one step of the straight line, and the
counter that follows the ticks ends where the block ends, cut to the 32-bit
range (`walk_conserves`).
-/

namespace Galdr

/-! ## The dominant axis -/

/-- No axis is longer than the dominant one. -/
theorem natAbs_le_dominant (steps : Axes Int32) (axis : Fin 4) :
    (steps axis).toInt.natAbs ≤ (steps (dominantAxis steps)).toInt.natAbs := by
  unfold dominantAxis xAxis yAxis zAxis aAxis
  simp only [List.foldl]
  split_ifs <;> fin_cases axis <;> simp only [Fin.isValue, Fin.zero_eta, Fin.mk_one,
    Fin.reduceFinMk] <;> omega

theorem natAbs_dominantAxis (steps : Axes Int32) :
    (steps (dominantAxis steps)).toInt.natAbs = dominantSteps steps := by
  apply le_antisymm
  · exact Finset.le_sup (f := fun axis => (steps axis).toInt.natAbs) (Finset.mem_univ _)
  · exact Finset.sup_le fun axis _ => natAbs_le_dominant steps axis

theorem absSteps_dominantAxis (steps : Axes Int32) :
    absSteps steps (dominantAxis steps) = (dominantSteps steps : ℤ) :=
  congrArg Nat.cast (natAbs_dominantAxis steps)

/-! ## The ticks of a walk -/

/-- The accumulators before a tick. -/
def ddaError (steps : Axes Int32) (n : ℕ) : Axes ℤ := fun axis =>
  Bresenham.errorAfter (absSteps steps axis) (dominantSteps steps : ℤ) n

/-- The axes that step on a tick. -/
def ddaMask (steps : Axes Int32) (n : ℕ) : Axes Bool := fun axis =>
  Bresenham.mark (absSteps steps axis) (dominantSteps steps : ℤ) n

/-- The ticks of a walk from one on, with their periods. -/
def ddaEvents (steps : Axes Int32) (period : ℕ → ℕ) (start n : ℕ) : List StepEvent :=
  (List.range' start n).map fun tick => ⟨ddaMask steps tick, period tick⟩

/-- **A tick advances every accumulator**, the dominant axis's included, which has
nothing left over and steps on every tick. -/
theorem ddaTick_ddaError {steps : Axes Int32} (hmove : dominantSteps steps ≠ 0) (n : ℕ) :
    ddaTick (absSteps steps) (dominantAxis steps) (ddaError steps n)
      = (ddaError steps (n + 1), ddaMask steps n) := by
  have hdominant : ∀ axis, axis = dominantAxis steps →
      absSteps steps axis = (dominantSteps steps : ℤ) := by
    rintro axis rfl
    exact absSteps_dominantAxis steps
  unfold ddaTick
  rw [absSteps_dominantAxis]
  congr 1
  · funext axis
    split
    · rename_i h
      unfold ddaError
      rw [hdominant axis h, Bresenham.errorAfter_self, Bresenham.errorAfter_self]
    · rfl
  · funext axis
    split
    · rename_i h
      unfold ddaMask
      rw [hdominant axis h, Bresenham.mark_self, bne_iff_ne]
      exact Nat.cast_ne_zero.2 hmove
    · rfl

theorem length_ddaEvents (steps : Axes Int32) (period : ℕ → ℕ) (start n : ℕ) :
    (ddaEvents steps period start n).length = n := by
  unfold ddaEvents
  rw [List.length_map, List.length_range']

theorem take_ddaEvents (steps : Axes Int32) (period : ℕ → ℕ) {m n : ℕ} (h : m ≤ n) :
    (ddaEvents steps period 0 n).take m = ddaEvents steps period 0 m := by
  unfold ddaEvents
  rw [← List.map_take, ← List.range_eq_range', List.take_range, Nat.min_eq_left h,
    List.range_eq_range']

/-- The steps of an axis among the first ticks are its marks. -/
theorem stepCount_ddaEvents (steps : Axes Int32) (period : ℕ → ℕ) (n : ℕ) (axis : Fin 4) :
    stepCount (ddaEvents steps period 0 n) axis
      = Bresenham.marks (absSteps steps axis) (dominantSteps steps : ℤ) n := by
  unfold stepCount ddaEvents Bresenham.marks
  rw [List.countP_map, List.range_eq_range']
  rfl

/-- What a walk of the first ticks of a block steps, and where it takes a counter. -/
structure Walks (steps : Axes Int32) (ticks : List StepEvent) (start : StepCounter) :
    Prop where
  /-- An axis as long as the longest steps on every tick. -/
  dominant : ∀ axis, (steps axis).toInt.natAbs = dominantSteps steps →
    ∀ tick ∈ ticks, tick.step axis = true
  /-- Every prefix is within one step of the straight line. -/
  straight : ∀ n ≤ ticks.length, ∀ axis,
    |(stepCount (ticks.take n) axis : ℤ) * dominantSteps steps
      - n * (steps axis).toInt.natAbs| < dominantSteps steps
  /-- The counter moves by the steps of each axis, in the direction of the block, cut
  to the 32-bit range. -/
  counter : ∀ axis,
    (((start.setDirection (.ofSteps steps)).follow ticks).position axis).toInt
      = clampI32 ((start.position axis).toInt
          + signedCount (decide (0 ≤ steps axis)) (stepCount ticks axis))

theorem ddaEvents_walks {steps : Axes Int32} (hmove : dominantSteps steps ≠ 0)
    (period : ℕ → ℕ) (n : ℕ) (start : StepCounter) :
    Walks steps (ddaEvents steps period 0 n) start where
  dominant axis haxis tick htick := by
    obtain ⟨k, _, rfl⟩ := List.mem_map.1 htick
    have hrise : absSteps steps axis = (dominantSteps steps : ℤ) := congrArg Nat.cast haxis
    show Bresenham.mark _ _ k = true
    rw [hrise, Bresenham.mark_self]
  straight m hm axis := by
    rw [length_ddaEvents] at hm
    rw [take_ddaEvents steps period hm, stepCount_ddaEvents]
    have hle : absSteps steps axis ≤ (dominantSteps steps : ℤ) := by
      rw [← absSteps_dominantAxis]
      exact Int.ofNat_le.2 (natAbs_le_dominant steps axis)
    have hpos : (0 : ℤ) < dominantSteps steps := by
      exact_mod_cast Nat.pos_of_ne_zero hmove
    exact Bresenham.abs_marks_sub_lt (Int.natCast_nonneg _) hle hpos m
  counter axis := by
    rw [StepCounter.toInt_follow]
    rfl

/-- **A whole walk steps every axis exactly.** -/
theorem stepCount_walk {steps : Axes Int32} (hmove : dominantSteps steps ≠ 0)
    (period : ℕ → ℕ) (axis : Fin 4) :
    stepCount (ddaEvents steps period 0 (dominantSteps steps)) axis
      = (steps axis).toInt.natAbs := by
  rw [stepCount_ddaEvents]
  have hle : (steps axis).toInt.natAbs ≤ dominantSteps steps := by
    rw [← natAbs_dominantAxis]
    exact natAbs_le_dominant steps axis
  exact Bresenham.marks_run hle (Nat.pos_of_ne_zero hmove)

/-- The magnitude of a step count, in its direction, is the step count. -/
theorem signedCount_natAbs (x : Int32) :
    signedCount (decide (0 ≤ x)) x.toInt.natAbs = x.toInt := by
  unfold signedCount
  have hzero : (0 : Int32).toInt = 0 := rfl
  by_cases h : 0 ≤ x
  · rw [if_pos (decide_eq_true h)]
    rw [Int32.le_iff_toInt_le, hzero] at h
    exact Int.natAbs_of_nonneg h
  · rw [if_neg (by simpa using h)]
    rw [Int32.le_iff_toInt_le, hzero] at h
    omega

/-! ## Walks of the generator -/

section Generator

variable {K : Type} [Field K] [LinearOrder K] [FloorRing K] [Libm K]
variable {S : Type} [StepSink S]

namespace SegmentGenerator

/-- Emit bursts in order, up to the first that fails. -/
def emitBursts : List (List StepEvent) → ℕ → S → Except MotionError ℕ × S
  | [], total, sink => (.ok total, sink)
  | burst :: bursts, total, sink =>
    match StepSink.emitBurst burst sink with
    | (.error e, sink) => (.error (.sink e), sink)
    | (.ok (), sink) => emitBursts bursts total sink

/-- Cut ticks into bursts, after a burst that has begun. -/
def toBursts : List StepEvent → List StepEvent → List (List StepEvent)
  | burst, [] => if burst = [] then [] else [burst]
  | burst, tick :: ticks =>
    if burst.length = maxSymbolsPerBurst then burst :: toBursts [tick] ticks
    else toBursts (burst ++ [tick]) ticks

/-- No tick is lost or added between the bursts. -/
theorem flatten_toBursts (burst ticks : List StepEvent) :
    (toBursts burst ticks).flatten = burst ++ ticks := by
  induction ticks generalizing burst with
  | nil =>
    unfold toBursts
    split
    · rename_i h
      rw [h]
      rfl
    · rw [List.flatten_singleton, List.append_nil]
  | cons tick ticks ih =>
    unfold toBursts
    split
    · rw [List.flatten_cons, ih]
      rfl
    · rw [ih, List.append_assoc]
      rfl

/-- No burst is too long. -/
theorem length_le_of_mem_toBursts {burst ticks : List StepEvent}
    (hburst : burst.length ≤ maxSymbolsPerBurst) :
    ∀ b ∈ toBursts burst ticks, b.length ≤ maxSymbolsPerBurst := by
  induction ticks generalizing burst with
  | nil =>
    intro b hb
    unfold toBursts at hb
    split at hb
    · exact absurd hb List.not_mem_nil
    · rw [List.mem_singleton.1 hb]
      exact hburst
  | cons tick ticks ih =>
    intro b hb
    unfold toBursts at hb
    split at hb
    · rcases List.mem_cons.1 hb with rfl | hb
      · exact hburst
      · refine ih ?_ b hb
        show 1 ≤ 46
        decide
    · rename_i hne
      refine ih ?_ b hb
      rw [List.length_append, List.length_singleton]
      omega

/-- **The walk emits the ticks of the block, cut into bursts.** -/
theorem emitFrom_eq {block : Block K} (profile : TrapezoidProfile K)
    (timing : StepTiming K) (hmove : dominantSteps block.steps ≠ 0)
    (remaining tick emitted : ℕ) (burst : List StepEvent) (sink : S) :
    emitFrom block profile timing remaining tick (ddaError block.steps tick) burst emitted
        sink
      = emitBursts (toBursts burst (ddaEvents block.steps
          (fun n => tickPeriod timing profile n block.stepEventCount) tick remaining))
        (emitted + remaining) sink := by
  induction remaining generalizing tick emitted burst sink with
  | zero =>
    show (if burst = [] then _ else _) = emitBursts (if burst = [] then [] else [burst]) _ _
    split
    · rfl
    · rfl
  | succ remaining ih =>
    have hevents : ddaEvents block.steps
          (fun n => tickPeriod timing profile n block.stepEventCount) tick (remaining + 1)
        = ⟨ddaMask block.steps tick, tickPeriod timing profile tick block.stepEventCount⟩
          :: ddaEvents block.steps
            (fun n => tickPeriod timing profile n block.stepEventCount) (tick + 1)
            remaining := rfl
    rw [hevents]
    unfold emitFrom toBursts
    rw [ddaTick_ddaError hmove]
    dsimp only
    split
    · show _ = emitBursts (burst :: _) _ _
      unfold emitBursts
      cases StepSink.emitBurst burst sink with
      | mk result sink' =>
        cases result with
        | error e => rfl
        | ok _ =>
          dsimp only
          rw [ih, Nat.add_right_comm]
          rfl
    · rw [ih, Nat.add_right_comm]
      rfl

/-- The recording sink takes every burst. -/
theorem emitBursts_recording (bursts : List (List StepEvent)) (total : ℕ)
    (sink : RecordingSink) :
    emitBursts bursts total sink = (.ok total, ⟨sink.directions, sink.bursts ++ bursts⟩) := by
  induction bursts generalizing sink with
  | nil =>
    show (_, sink) = _
    rw [List.append_nil]
  | cons burst bursts ih =>
    show emitBursts bursts total (⟨sink.directions, sink.bursts ++ [burst]⟩ : RecordingSink) = _
    rw [ih, List.append_assoc]
    rfl

/-- The periods of a block under an override and a ceiling. -/
def scaledPeriod (config : MotionConfig K) (block : Block K) (exitSpeedSq overrideScale : K)
    (maxSpeedSq : WithTop K) (tick : ℕ) : ℕ :=
  tickPeriod (.forBlock config block (dominantAxis block.steps))
    (scaledProfile block exitSpeedSq overrideScale maxSpeedSq) tick block.stepEventCount

/-- **What a block emits**: its direction and its ticks, cut into bursts. -/
theorem runBlockScaled_recording {config : MotionConfig K} (husable : ¬config.Unusable)
    {block : Block K} (hevents : block.stepEventCount = dominantSteps block.steps)
    (hmove : block.stepEventCount ≠ 0) (exitSpeedSq overrideScale : K)
    (maxSpeedSq : WithTop K) :
    runBlockScaled config block exitSpeedSq overrideScale maxSpeedSq RecordingSink.new
      = (.ok block.stepEventCount, ⟨[.ofSteps block.steps], toBursts []
          (ddaEvents block.steps
            (scaledPeriod config block exitSpeedSq overrideScale maxSpeedSq) 0
            block.stepEventCount)⟩) := by
  unfold runBlockScaled
  rw [if_neg husable, if_neg hmove]
  show emitProfile _ _ _ (⟨[] ++ [.ofSteps block.steps], []⟩ : RecordingSink) = _
  unfold emitProfile
  have hwalk := emitFrom_eq (S := RecordingSink)
    (scaledProfile block exitSpeedSq overrideScale maxSpeedSq)
    (.forBlock config block (dominantAxis block.steps)) (hevents ▸ hmove)
    block.stepEventCount 0 0 [] ⟨[.ofSteps block.steps], []⟩
  rw [Nat.zero_add, emitBursts_recording] at hwalk
  exact hwalk

end SegmentGenerator

/-! ## Walks of the probe stepper -/

namespace ProbeStepper

/-- **A probe walks until the first sample that is at the edge**, or to the end, a
tick in a burst. -/
theorem probeFrom_recording {steps : Axes Int32} (hmove : dominantSteps steps ≠ 0)
    (period : ℕ) (atStopEdge : ℕ → Bool) (remaining tick : ℕ) (sink : RecordingSink) :
    ∃ m, tick ≤ m ∧ m ≤ tick + remaining
      ∧ (∀ i, tick ≤ i → i < m → atStopEdge i = false)
      ∧ (m < tick + remaining → atStopEdge m = true)
      ∧ probeFrom steps period atStopEdge remaining (ddaError steps tick) tick sink
        = (.ok ⟨atStopEdge m, m⟩, ⟨sink.directions, sink.bursts
            ++ (ddaEvents steps (fun _ => period) tick (m - tick)).map fun e => [e]⟩) := by
  induction remaining generalizing tick sink with
  | zero =>
    refine ⟨tick, le_rfl, le_rfl, fun i h h' => absurd h (not_le.2 h'),
      fun h => absurd h (lt_irrefl _), ?_⟩
    rw [Nat.sub_self]
    show (_, sink) = (_, ⟨sink.directions, sink.bursts ++ []⟩)
    rw [List.append_nil]
  | succ remaining ih =>
    unfold probeFrom
    cases hedge : atStopEdge tick with
    | true =>
      refine ⟨tick, le_rfl, by omega, fun i h h' => absurd h (not_le.2 h'),
        fun _ => hedge, ?_⟩
      rw [Nat.sub_self, if_pos rfl, hedge]
      show (_, sink) = (_, ⟨sink.directions, sink.bursts ++ []⟩)
      rw [List.append_nil]
    | false =>
      set event : StepEvent := ⟨ddaMask steps tick, period⟩ with hevent
      obtain ⟨m, hm, hm', hbefore, hstop, hwalk⟩ :=
        ih (tick + 1) ⟨sink.directions, sink.bursts ++ [[event]]⟩
      refine ⟨m, by omega, by omega, fun i h h' => ?_, fun h => hstop (by omega), ?_⟩
      · rcases h.eq_or_lt with rfl | hlt
        · exact hedge
        · exact hbefore i hlt h'
      · rw [if_neg Bool.false_ne_true, ddaTick_ddaError hmove]
        show probeFrom steps period atStopEdge remaining (ddaError steps (tick + 1))
          (tick + 1) (⟨sink.directions, sink.bursts ++ [[event]]⟩ : RecordingSink) = _
        rw [hwalk]
        have hsplit : m - tick = (m - (tick + 1)) + 1 := by omega
        rw [hsplit]
        show (_, (⟨_, sink.bursts ++ [[event]] ++ _⟩ : RecordingSink)) = _
        rw [List.append_assoc]
        rfl

end ProbeStepper

/-! ## Conservation -/

/-- What a run of the generator emits conserves the steps of the block. -/
structure Conserves (block : Block K) (run : Except MotionError ℕ × RecordingSink)
    (start : StepCounter) : Prop where
  /-- The run completes with one tick for each step of the longest axis. -/
  completes : run.1 = .ok block.stepEventCount
  /-- As many ticks are emitted. -/
  length : run.2.allTicks.length = block.stepEventCount
  /-- No burst is too long. -/
  bursts : ∀ burst ∈ run.2.bursts, burst.length ≤ maxSymbolsPerBurst
  /-- Every axis steps exactly. -/
  steps : ∀ axis, stepCount run.2.allTicks axis = (block.steps axis).toInt.natAbs
  /-- The walk keeps to the straight line, and the counter follows it. -/
  walks : 0 < block.stepEventCount → Walks block.steps run.2.allTicks start
  /-- The counter ends at the end of the block, cut to the 32-bit range. -/
  counter : ∀ axis, (((start.setDirection (.ofSteps block.steps)).follow
      run.2.allTicks).position axis).toInt
    = clampI32 ((start.position axis).toInt + (block.steps axis).toInt)

/-- What a run of the probe stepper emits is the walk of the block up to the tick it
stopped at, and the counter is there. -/
structure ProbeConserves (block : Block K)
    (run : Except MotionError ProbeOutcome × RecordingSink) (atStopEdge : ℕ → Bool)
    (start : StepCounter) : Prop where
  /-- The run stops at the first sample at the edge, or at the end. -/
  stops : run.1 = .ok ⟨atStopEdge run.2.allTicks.length, run.2.allTicks.length⟩
    ∧ run.2.allTicks.length ≤ block.stepEventCount
    ∧ (∀ i < run.2.allTicks.length, atStopEdge i = false)
    ∧ (run.2.allTicks.length < block.stepEventCount →
        atStopEdge run.2.allTicks.length = true)
  /-- Every burst is one tick. -/
  bursts : ∀ burst ∈ run.2.bursts, burst.length = 1
  /-- The walk keeps to the straight line, and the counter follows it. -/
  walks : 0 < block.stepEventCount → Walks block.steps run.2.allTicks start

/-- A block whose longest axis does not step does not step. -/
theorem natAbs_eq_zero {steps : Axes Int32} (h : dominantSteps steps = 0) (axis : Fin 4) :
    (steps axis).toInt.natAbs = 0 := by
  have hle := natAbs_le_dominant steps axis
  rw [natAbs_dominantAxis, h] at hle
  exact Nat.le_zero.1 hle

theorem runBlockScaled_conserves {config : MotionConfig K} (husable : ¬config.Unusable)
    {block : Block K} (hevents : block.stepEventCount = dominantSteps block.steps)
    (start : StepCounter) (exitSpeedSq overrideScale : K) (maxSpeedSq : WithTop K) :
    Conserves block (SegmentGenerator.runBlockScaled config block exitSpeedSq
      overrideScale maxSpeedSq RecordingSink.new) start := by
  by_cases hmove : block.stepEventCount = 0
  · have hrun : SegmentGenerator.runBlockScaled config block exitSpeedSq overrideScale
        maxSpeedSq RecordingSink.new = (.ok 0, RecordingSink.new) := by
      unfold SegmentGenerator.runBlockScaled
      rw [if_neg husable, if_pos hmove]
    have hzero := natAbs_eq_zero (hevents ▸ hmove)
    rw [hrun]
    refine ⟨by rw [hmove], hmove.symm, fun _ h => absurd h List.not_mem_nil,
      fun axis => (hzero axis).symm, fun h => absurd hmove h.ne', fun axis => ?_⟩
    rw [Int.natAbs_eq_zero.1 (hzero axis), add_zero]
    exact (clampI32_of_fits (fits_toInt _)).symm
  · have hmove' : dominantSteps block.steps ≠ 0 := hevents ▸ hmove
    have hrun := SegmentGenerator.runBlockScaled_recording husable hevents hmove
      exitSpeedSq overrideScale maxSpeedSq
    set period := SegmentGenerator.scaledPeriod config block exitSpeedSq overrideScale
      maxSpeedSq with hperiod
    have hticks : (⟨[.ofSteps block.steps], SegmentGenerator.toBursts []
        (ddaEvents block.steps period 0 block.stepEventCount)⟩ : RecordingSink).allTicks
          = ddaEvents block.steps period 0 block.stepEventCount :=
      SegmentGenerator.flatten_toBursts [] _
    rw [hrun]
    have hsteps : ∀ axis, stepCount (ddaEvents block.steps period 0 block.stepEventCount) axis
        = (block.steps axis).toInt.natAbs := by
      rw [hevents]
      exact stepCount_walk hmove' period
    have hwalks := ddaEvents_walks hmove' period block.stepEventCount start
    refine ⟨rfl, ?_, SegmentGenerator.length_le_of_mem_toBursts (Nat.zero_le _), ?_, ?_, ?_⟩
    · rw [hticks, length_ddaEvents]
    · rw [hticks]
      exact hsteps
    · rw [hticks]
      exact fun _ => hwalks
    · intro axis
      rw [hticks, hwalks.counter, hsteps, signedCount_natAbs]

omit [FloorRing K] [Libm K] in
theorem runProbe_conserves {config : MotionConfig K} (husable : ¬config.Unusable)
    {block : Block K} (hevents : block.stepEventCount = dominantSteps block.steps)
    (start : StepCounter) (stepPeriodTicks : ℕ) (atStopEdge : ℕ → Bool) :
    ProbeConserves block (ProbeStepper.runProbe config block stepPeriodTicks atStopEdge
      RecordingSink.new) atStopEdge start := by
  by_cases hmove : block.stepEventCount = 0
  · have hrun : ProbeStepper.runProbe config block stepPeriodTicks atStopEdge
        RecordingSink.new = (.ok ⟨atStopEdge 0, 0⟩, RecordingSink.new) := by
      unfold ProbeStepper.runProbe
      rw [if_neg husable, if_pos hmove]
    rw [hrun]
    exact ⟨⟨rfl, Nat.zero_le _, fun i h => absurd h (Nat.not_lt_zero i),
        fun h => absurd hmove h.ne'⟩,
      fun _ h => absurd h List.not_mem_nil, fun h => absurd hmove h.ne'⟩
  · have hmove' : dominantSteps block.steps ≠ 0 := hevents ▸ hmove
    set period := clampTicks config.minPeriodTicks config.maxPeriodTicks stepPeriodTicks
      with hperiod
    obtain ⟨m, _, hm, hbefore, hstop, hwalk⟩ := ProbeStepper.probeFrom_recording hmove'
      period atStopEdge block.stepEventCount 0 ⟨[.ofSteps block.steps], []⟩
    rw [Nat.zero_add] at hm hstop
    rw [List.nil_append, Nat.sub_zero] at hwalk
    have hrun : ProbeStepper.runProbe config block stepPeriodTicks atStopEdge
        RecordingSink.new = (.ok ⟨atStopEdge m, m⟩, ⟨[.ofSteps block.steps],
          (ddaEvents block.steps (fun _ => period) 0 m).map fun e => [e]⟩) := by
      unfold ProbeStepper.runProbe
      rw [if_neg husable, if_neg hmove]
      exact hwalk
    have hticks : (⟨[.ofSteps block.steps], (ddaEvents block.steps (fun _ => period) 0
        m).map fun e => [e]⟩ : RecordingSink).allTicks
          = ddaEvents block.steps (fun _ => period) 0 m := by
      show (List.map _ _).flatten = _
      rw [← List.flatMap_def, List.flatMap_singleton']
    rw [hrun]
    refine ⟨?_, fun burst hburst => ?_, ?_⟩
    · rw [hticks, length_ddaEvents]
      exact ⟨rfl, hm, fun i h => hbefore i (Nat.zero_le i) h, hstop⟩
    · obtain ⟨e, _, rfl⟩ := List.mem_map.1 hburst
      rfl
    · rw [hticks]
      exact fun _ => ddaEvents_walks hmove' _ m start

/-- **Steps are conserved.** Under every override and ceiling the generator steps a
block exactly, and the probe stepper steps the same ticks up to where it
stops. The counter follows both, cut to the 32-bit range. -/
theorem walk_conserves (config : MotionConfig K) (husable : ¬config.Unusable)
    (block : Block K) (hevents : block.stepEventCount = dominantSteps block.steps)
    (start : StepCounter) :
    (∀ (exitSpeedSq overrideScale : K) (maxSpeedSq : WithTop K),
      Conserves block (SegmentGenerator.runBlockScaled config block exitSpeedSq
        overrideScale maxSpeedSq RecordingSink.new) start)
      ∧ ∀ (stepPeriodTicks : ℕ) (atStopEdge : ℕ → Bool),
        ProbeConserves block (ProbeStepper.runProbe config block stepPeriodTicks
          atStopEdge RecordingSink.new) atStopEdge start :=
  ⟨runBlockScaled_conserves husable hevents start,
    runProbe_conserves husable hevents start⟩

end Generator

/-- A timer of 1 MHz, pulses of 10 µs at least 2 µs apart. -/
def MotionConfig.default : MotionConfig ℚ := ⟨1000000, 10, 2⟩

theorem walk_conserves_bench :
    Conserves (Block.placeholder ![3, -2, 0, 1] : Block ℚ)
      (SegmentGenerator.runBlockScaled MotionConfig.default
        (Block.placeholder ![3, -2, 0, 1]) 0 1 ⊤ RecordingSink.new)
      StepCounter.new :=
  (walk_conserves MotionConfig.default (by decide +kernel)
    (Block.placeholder ![3, -2, 0, 1]) rfl StepCounter.new).1 0 1 ⊤

/-- **The counter saturates.** A step in the positive direction from the end of the
32-bit range does not take it to start and step. -/
theorem counter_saturates :
    (SegmentGenerator.runBlockScaled MotionConfig.default
        (Block.placeholder ![1, 0, 0, 0]) 0 1 ⊤ RecordingSink.new).1 = .ok 1
      ∧ ((((StepCounter.syncTo .new ![2147483647, 0, 0, 0]).setDirection
          (.ofSteps ![1, 0, 0, 0])).follow
            (SegmentGenerator.runBlockScaled MotionConfig.default
              (Block.placeholder ![1, 0, 0, 0]) 0 1 ⊤ RecordingSink.new).2.allTicks).position
          xAxis).toInt ≠ 2147483647 + 1 := by
  decide +kernel

end Galdr
