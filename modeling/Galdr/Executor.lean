import Galdr.MotionSteps
import Galdr.PlannerEntries

/-!
# The motion executor

The executor takes blocks from the planner and runs them under the overrides in
force: a rapid under the rapid override and without a ceiling, every other move
under the feed override and cut to the slowest axis's greatest rate. What it
runs is again a trapezoid, between speeds that are scaled and cut block by
block (`executedProfile_eq`).
-/

namespace Galdr

/-! ## Overrides -/

/-- The overrides in force. They are only ever what the real-time bytes make them,
and carry their bounds. -/
structure Overrides where
  /-- The feed override in percent. -/
  feed : ℤ
  /-- The rapid override in percent. -/
  rapid : ℤ
  /-- The spindle override in percent. -/
  spindle : ℤ
  /-- The spindle is stopped. -/
  spindleStop : Bool
  /-- Flood coolant is on. -/
  flood : Bool
  /-- Mist coolant is on. -/
  mist : Bool
  /-- The feed override is in its band. -/
  feed_mem : 10 ≤ feed ∧ feed ≤ 200
  /-- The rapid override is one of the three. -/
  rapid_mem : rapid = 25 ∨ rapid = 50 ∨ rapid = 100
  /-- The spindle override is in its band. -/
  spindle_mem : 10 ≤ spindle ∧ spindle ≤ 200

namespace Overrides

/-- No override. -/
def new : Overrides :=
  ⟨100, 100, 100, false, false, false, by decide, by decide, by decide⟩

/-- A candidate cut to the band. -/
def clampOverride (candidate : ℤ) : ℤ := max 10 (min candidate 200)

theorem clampOverride_mem (candidate : ℤ) :
    10 ≤ clampOverride candidate ∧ clampOverride candidate ≤ 200 := by
  unfold clampOverride
  omega

/-- The overrides with another feed override. -/
def withFeed (ov : Overrides) (candidate : ℤ) : Overrides :=
  { ov with feed := clampOverride candidate, feed_mem := clampOverride_mem candidate }

/-- The overrides with another spindle override. -/
def withSpindle (ov : Overrides) (candidate : ℤ) : Overrides :=
  { ov with spindle := clampOverride candidate, spindle_mem := clampOverride_mem candidate }

/-- The overrides after a real-time byte; other bytes do nothing. -/
def apply (ov : Overrides) (byte : UInt8) : Overrides :=
  if byte = 0x90 then ov.withFeed 100
  else if byte = 0x91 then ov.withFeed (ov.feed + 10)
  else if byte = 0x92 then ov.withFeed (ov.feed - 10)
  else if byte = 0x93 then ov.withFeed (ov.feed + 1)
  else if byte = 0x94 then ov.withFeed (ov.feed - 1)
  else if byte = 0x95 then { ov with rapid := 100, rapid_mem := by decide }
  else if byte = 0x96 then { ov with rapid := 50, rapid_mem := by decide }
  else if byte = 0x97 then { ov with rapid := 25, rapid_mem := by decide }
  else if byte = 0x99 then ov.withSpindle 100
  else if byte = 0x9A then ov.withSpindle (ov.spindle + 10)
  else if byte = 0x9B then ov.withSpindle (ov.spindle - 10)
  else if byte = 0x9C then ov.withSpindle (ov.spindle + 1)
  else if byte = 0x9D then ov.withSpindle (ov.spindle - 1)
  else if byte = 0x9E then { ov with spindleStop := !ov.spindleStop }
  else if byte = 0xA0 then { ov with flood := !ov.flood }
  else if byte = 0xA1 then { ov with mist := !ov.mist }
  else ov

end Overrides

namespace Executor

variable {K : Type} [Field K] [LinearOrder K]

/-- The override of a block as a fraction. -/
def overrideScale (ov : Overrides) (block : Block K) : K :=
  ((if block.rapid then ov.rapid else ov.feed : ℤ) : K) / 100

/-- The slowest of the greatest rates, in mm/s; infinite when no axis has one. -/
def minMaxRateMmS (maxRateMmMin : Axes K) : WithTop K :=
  let minMmMin := ((List.finRange 4).filter fun axis => 0 < maxRateMmMin axis).foldl
    (fun slowest axis => min slowest ((maxRateMmMin axis : K) : WithTop K)) ⊤
  minMmMin.map (· / 60)

/-- The ceiling of a block: none for a rapid. -/
def maxSpeedSq (maxRateMmMin : Axes K) (block : Block K) : WithTop K :=
  if block.rapid then ⊤ else (minMaxRateMmS maxRateMmMin).map fun rate => rate * rate

/-- What running a block publishes and comes to. -/
structure BlockRun (K S : Type) where
  /-- The programmed feed in mm/min. -/
  programmedFeedMmMin : K
  /-- The block is a rapid. -/
  blockIsRapid : Bool
  /-- What the generator returned. -/
  result : Except MotionError ℕ
  /-- The sink. -/
  sink : S

/-- Run a block under the overrides in force. -/
def runBlock [FloorRing K] [Libm K] {S : Type} [StepSink S] (config : MotionConfig K)
    (ov : Overrides) (maxRateMmMin : Axes K) (block : Block K) (exitSpeedSq : K)
    (sink : S) : BlockRun K S :=
  match SegmentGenerator.runBlockScaled config block exitSpeedSq (overrideScale ov block)
      (maxSpeedSq maxRateMmMin block) sink with
  | (result, sink) => ⟨sqrtf block.nominalSpeedSq * 60, block.rapid, result, sink⟩

/-- The profile a block is run with. -/
def executedProfile (ov : Overrides) (maxRateMmMin : Axes K) (block : Block K)
    (exitSpeedSq : K) : TrapezoidProfile K :=
  SegmentGenerator.scaledProfile block exitSpeedSq (overrideScale ov block)
    (maxSpeedSq maxRateMmMin block)

/-- A squared speed of a block as it is run: scaled, and cut to the ceiling. -/
def executedSpeedSq (ov : Overrides) (maxRateMmMin : Axes K) (block : Block K)
    (speedSq : K) : K :=
  clampSpeedSq (speedSq * (overrideScale ov block * overrideScale ov block))
    (maxSpeedSq maxRateMmMin block)

variable [IsStrictOrderedRing K]

/-! ## Scales and ceilings -/

theorem overrideScale_pos (ov : Overrides) (block : Block K) :
    0 < overrideScale ov block := by
  have hpct : 0 < (if block.rapid then ov.rapid else ov.feed : ℤ) := by
    have hfeed := ov.feed_mem
    have hrapid := ov.rapid_mem
    split <;> omega
  unfold overrideScale
  have hpct' : (0 : K) < ((if block.rapid then ov.rapid else ov.feed : ℤ) : K) :=
    Int.cast_pos.2 hpct
  positivity

/-- A ceiling is positive. -/
theorem maxSpeedSq_pos (maxRateMmMin : Axes K) (block : Block K) :
    0 < maxSpeedSq maxRateMmMin block := by
  have hfold : ∀ (axes : List (Fin 4)) (slowest : WithTop K), 0 < slowest →
      (∀ axis ∈ axes, 0 < maxRateMmMin axis) →
      0 < axes.foldl (fun slowest axis => min slowest ((maxRateMmMin axis : K) : WithTop K))
        slowest := by
    intro axes
    induction axes with
    | nil => exact fun slowest h _ => h
    | cons axis axes ih =>
      intro slowest h haxes
      exact ih _ (lt_min h (WithTop.coe_pos.2 (haxes axis List.mem_cons_self)))
        fun a ha => haxes a (List.mem_cons_of_mem _ ha)
  unfold maxSpeedSq
  split
  · exact WithTop.coe_lt_top 0
  · have hmin := hfold ((List.finRange 4).filter fun axis => 0 < maxRateMmMin axis) ⊤
      (WithTop.coe_lt_top 0) fun axis haxis => by simpa using (List.mem_filter.1 haxis).2
    unfold minMaxRateMmS
    dsimp only
    revert hmin
    generalize ((List.finRange 4).filter fun axis => 0 < maxRateMmMin axis).foldl
      (fun slowest axis => min slowest ((maxRateMmMin axis : K) : WithTop K)) ⊤ = slowest
    intro hmin
    cases slowest with
    | top => exact WithTop.coe_lt_top 0
    | coe rate =>
      have hrate : 0 < rate := WithTop.coe_pos.1 hmin
      show (0 : WithTop K) < ((rate / 60 * (rate / 60) : K) : WithTop K)
      exact WithTop.coe_pos.2 (by positivity)

/-! ## What is run -/

omit [IsStrictOrderedRing K] in
theorem clampSpeedSq_of_nonneg {speedSq : K} (h : 0 ≤ speedSq) (ceilingSq : WithTop K) :
    clampSpeedSq speedSq ceilingSq = capBy ceilingSq speedSq := by
  unfold clampSpeedSq
  rw [max_eq_left h]

omit [Field K] [IsStrictOrderedRing K] in
theorem capBy_mono (ceilingSq : WithTop K) {u v : K} (h : u ≤ v) :
    capBy ceilingSq u ≤ capBy ceilingSq v := by
  cases ceilingSq with
  | top => exact h
  | coe c => exact min_le_min_left c h

omit [IsStrictOrderedRing K] in
/-- Cutting the ceiling at zero does nothing to one that is positive. -/
theorem map_max_zero {ceilingSq : WithTop K} (h : 0 < ceilingSq) :
    ceilingSq.map (max · 0) = ceilingSq := by
  cases ceilingSq with
  | top => rfl
  | coe c =>
    show ((max c 0 : K) : WithTop K) = c
    rw [max_eq_left (WithTop.coe_pos.1 h).le]

/-- **The profile a block is run with is the trapezoid of its executed speeds.** -/
theorem executedProfile_eq (ov : Overrides) (maxRateMmMin : Axes K) (block : Block K)
    (exitSpeedSq : K) :
    executedProfile ov maxRateMmMin block exitSpeedSq
      = .planScaled block
          ⟨executedSpeedSq ov maxRateMmMin block block.entrySpeedSq,
            executedSpeedSq ov maxRateMmMin block block.nominalSpeedSq⟩
          (executedSpeedSq ov maxRateMmMin block exitSpeedSq) := by
  unfold executedProfile SegmentGenerator.scaledProfile
  rw [if_pos (overrideScale_pos ov block), map_max_zero (maxSpeedSq_pos maxRateMmMin block)]
  rfl

/-- Scaling and cutting keep the order of squared speeds. -/
theorem executedSpeedSq_mono (ov : Overrides) (maxRateMmMin : Axes K) (block : Block K)
    {u v : K} (h : u ≤ v) :
    executedSpeedSq ov maxRateMmMin block u ≤ executedSpeedSq ov maxRateMmMin block v := by
  have hscale := overrideScale_pos ov block
  exact capBy_mono _ (max_le_max_right 0
    (mul_le_mul_of_nonneg_right h (mul_pos hscale hscale).le))

/-- An executed squared speed is one. -/
theorem executedSpeedSq_nonneg (ov : Overrides) (maxRateMmMin : Axes K) (block : Block K)
    (v : K) : 0 ≤ executedSpeedSq ov maxRateMmMin block v :=
  capBy_nonneg (maxSpeedSq_pos maxRateMmMin block).le (le_max_right _ _)

/-- A block that can be run can be run under every override. -/
theorem runnable_executed {block : Block K} {exitSq : K}
    (h : Runnable block block.entrySpeedSq block.nominalSpeedSq exitSq) (ov : Overrides)
    (maxRateMmMin : Axes K) :
    Runnable block (executedSpeedSq ov maxRateMmMin block block.entrySpeedSq)
      (executedSpeedSq ov maxRateMmMin block block.nominalSpeedSq)
      (executedSpeedSq ov maxRateMmMin block exitSq) :=
  ⟨h.millimeters_pos, h.acceleration_pos, executedSpeedSq_nonneg _ _ _ _,
    executedSpeedSq_mono _ _ _ h.entry_le, executedSpeedSq_nonneg _ _ _ _,
    executedSpeedSq_mono _ _ _ h.exit_le⟩

end Executor

end Galdr
