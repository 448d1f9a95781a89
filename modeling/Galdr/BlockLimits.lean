import Galdr.LibmReal
import Galdr.PlannerFeasible

/-!
# Limits and times of a block

No axis with a part in a move goes faster, or speeds up harder, than it may
(`Limited`). An axis whose component of the direction is next to nothing has no
part in it: the planner lets it bind nothing, so that such an axis can be taken
faster than its rate. As long as no limit binds, a move lasts as long as its
feed asks for (`buildBlock_minutes`).
-/

namespace Galdr

variable {K : Type} [Field K] [LinearOrder K]

/-- The cruise speed of a block. -/
def Block.nominalSpeed [Libm K] (b : Block K) : K := sqrtf b.nominalSpeedSq

/-- The axes that bind a block are within their rates and accelerations. -/
structure Block.Limited [Libm K] (config : PlannerConfig K) (b : Block K) : Prop where
  /-- No axis goes faster than it may. -/
  rate : ∀ axis, lengthEpsilonMm < |b.unitVec axis| →
    b.nominalSpeed * |b.unitVec axis| ≤ config.maxRateMmMin axis / 60
  /-- No axis speeds up harder than it may. -/
  acceleration : ∀ axis, lengthEpsilonMm < |b.unitVec axis| →
    b.acceleration * |b.unitVec axis| ≤ config.accelMmS2 axis

namespace Planner

section Tightest

variable [IsStrictOrderedRing K] {unitVec limits : Axes K}

omit [IsStrictOrderedRing K] in
theorem tightest_le {axis : Fin 4} (h : lengthEpsilonMm < |unitVec axis|) :
    tightest unitVec limits ≤ ((limits axis / |unitVec axis| : K) : WithTop K) :=
  Finset.inf_le (Finset.mem_filter.2 ⟨Finset.mem_univ axis, h⟩)

/-- Under the tightest limit no component exceeds its own. -/
theorem mul_le_of_le_tightest {x : K} (hx : (x : WithTop K) ≤ tightest unitVec limits)
    {axis : Fin 4} (h : lengthEpsilonMm < |unitVec axis|) : x * |unitVec axis| ≤ limits axis :=
  (le_div_iff₀ (lengthEpsilonMm_pos.trans h)).1 (WithTop.coe_le_coe.1 (hx.trans (tightest_le h)))

/-- What exceeds the limit of no component is under the tightest one. -/
theorem le_tightest {x : K}
    (h : ∀ axis, lengthEpsilonMm < |unitVec axis| → x * |unitVec axis| ≤ limits axis) :
    (x : WithTop K) ≤ tightest unitVec limits := by
  refine Finset.le_inf fun axis haxis => WithTop.coe_le_coe.2 ?_
  have hcounts := (Finset.mem_filter.1 haxis).2
  exact (le_div_iff₀ (lengthEpsilonMm_pos.trans hcounts)).2 (h axis hcounts)

omit [Field K] [IsStrictOrderedRing K] in
theorem capBy_of_le {limit : WithTop K} {x : K} (h : (x : WithTop K) ≤ limit) :
    capBy limit x = x := by
  cases limit with
  | top => rfl
  | coe l => exact min_eq_right (WithTop.coe_le_coe.1 h)

omit [Field K] [IsStrictOrderedRing K] in
theorem coe_capBy_le (limit : WithTop K) (x : K) : ((capBy limit x : K) : WithTop K) ≤ limit := by
  cases limit with
  | top => exact le_top
  | coe l => exact WithTop.coe_le_coe.2 (min_le_left l x)

end Tightest

variable [Libm K]

/-- The feed and the feed mode that a block is built with. -/
def blockFeed (config : PlannerConfig K) (feed : K) (units : Units) (feedMode : FeedMode)
    (rapid : Bool) (steps : Axes Int32) : K × FeedMode :=
  if rapid then (feed, feedMode) else resolveFeed config feed feedMode units (deltaMm config steps)

/-- The cruise speed of a block is that of its feed. -/
theorem buildBlock_nominalSpeedSq {p : Planner K} {target : Axes Int32} {feed : K} {units : Units}
    {feedMode : FeedMode} {rapid jog : Bool} {block : Block K}
    (h : p.buildBlock target feed units feedMode rapid jog = some block) :
    block.nominalSpeedSq
      = nominalSpeedMmS p.config (blockFeed p.config feed units feedMode rapid block.steps).1 units
          (blockFeed p.config feed units feedMode rapid block.steps).2 rapid block.millimeters
          block.unitVec
        * nominalSpeedMmS p.config (blockFeed p.config feed units feedMode rapid block.steps).1 units
          (blockFeed p.config feed units feedMode rapid block.steps).2 rapid block.millimeters
          block.unitVec := by
  unfold buildBlock at h
  dsimp only at h
  split at h
  · cases h
  · obtain rfl := Option.some.inj h
    rfl

variable [IsStrictOrderedRing K] [LawfulLibm K]
variable {p : Planner K} {target : Axes Int32} {feed : K} {units : Units} {feedMode : FeedMode}
  {rapid jog : Bool} {block : Block K}

theorem nominalSpeed_eq (h : p.buildBlock target feed units feedMode rapid jog = some block) :
    block.nominalSpeed
      = nominalSpeedMmS p.config (blockFeed p.config feed units feedMode rapid block.steps).1 units
          (blockFeed p.config feed units feedMode rapid block.steps).2 rapid block.millimeters
          block.unitVec := by
  unfold Block.nominalSpeed
  rw [buildBlock_nominalSpeedSq h,
    sqrtf_mul_self_eq (nominalSpeedMmS_nonneg _ _ _ _ _ _ (unitNorm_of_buildBlock h))]

/-- The cruise speed is within what the axes allow. -/
theorem nominalSpeed_le (h : p.buildBlock target feed units feedMode rapid jog = some block) :
    (block.nominalSpeed : WithTop K) ≤ axisRateLimitMmS p.config block.unitVec := by
  have hrate : ∀ axis, 0 < p.config.maxRateMmMin axis / 60 := fun axis =>
    div_pos (p.config.maxRateMmMin_pos axis) (by norm_num)
  obtain ⟨limit, hlimit, hpos⟩ := tightest_pos (unitNorm_of_buildBlock h) hrate
  have hlimit' : axisRateLimitMmS p.config block.unitVec = limit := hlimit
  rw [nominalSpeed_eq h]
  unfold nominalSpeedMmS
  rw [hlimit']
  cases rapid with
  | true => exact le_rfl
  | false =>
    refine WithTop.coe_le_coe.2 (max_le ?_ hpos.le)
    exact WithTop.coe_le_coe.1 (coe_capBy_le _ _)

/-- **The axes that bind a block are within their limits.** -/
theorem limited_of_buildBlock (h : p.buildBlock target feed units feedMode rapid jog = some block) :
    block.Limited p.config where
  rate _ haxis := mul_le_of_le_tightest (nominalSpeed_le h) haxis
  acceleration axis haxis := by
    obtain ⟨limit, hlimit, -⟩ := tightest_pos (unitNorm_of_buildBlock h) p.config.accelMmS2_pos
    have haccel : block.acceleration = limit := by
      rw [(buildBlock_spec h).acceleration]
      unfold limitingAcceleration
      rw [hlimit, WithTop.untopD_coe]
    rw [haccel]
    exact mul_le_of_le_tightest hlimit.ge haxis

/-! ## Times -/

omit [IsStrictOrderedRing K] [LawfulLibm K] in
/-- The length of a move on the linear axes. -/
def linearMm (config : PlannerConfig K) (steps : Axes Int32) : K :=
  sqrtf (∑ axis, if config.isRotary axis then 0
    else deltaMm config steps axis * deltaMm config steps axis)

omit [IsStrictOrderedRing K] [LawfulLibm K] in
/-- The length of a move on the rotary axes. -/
def rotaryDeg (config : PlannerConfig K) (steps : Axes Int32) : K :=
  sqrtf (∑ axis, if config.isRotary axis then
    deltaMm config steps axis * deltaMm config steps axis else 0)

/-- What a feed in units per minute is along: the linear axes, as far as a move has a part on
them. -/
def fedMm (config : PlannerConfig K) (steps : Axes Int32) : K :=
  if lengthEpsilonMm < linearMm config steps then linearMm config steps else lengthMm config steps

/-- The minutes that a feed asks a move to take. -/
def askedMinutes (config : PlannerConfig K) (feed : K) (units : Units) (feedMode : FeedMode)
    (steps : Axes Int32) : K :=
  match feedMode with
  | .unitsPerMin => fedMm config steps / (feed * unitsScale units)
  | .inverseTime => 1 / feed

/-- In so many minutes no axis that binds the block exceeds its rate. -/
def Unbound (config : PlannerConfig K) (block : Block K) (minutes : K) : Prop :=
  ∀ axis, lengthEpsilonMm < |block.unitVec axis| →
    |deltaMm config block.steps axis| ≤ config.maxRateMmMin axis * minutes

omit [Libm K] [LawfulLibm K] in
theorem unitsScale_pos (units : Units) : (0 : K) < unitsScale units := by
  cases units with
  | millimeter => exact one_pos
  | inch =>
    unfold unitsScale mmPerInch
    norm_num

/-- Without a part on the rotary axes a move is all on the linear ones. -/
theorem lengthMm_of_rotaryDeg {config : PlannerConfig K} {steps : Axes Int32}
    (h : rotaryDeg config steps = 0) : lengthMm config steps = linearMm config steps := by
  have hnonneg : ∀ axis, 0 ≤ if config.isRotary axis then
      deltaMm config steps axis * deltaMm config steps axis else 0 := by
    intro axis
    split
    · exact mul_self_nonneg _
    · exact le_rfl
  have hsum : ∑ axis, (if config.isRotary axis then
      deltaMm config steps axis * deltaMm config steps axis else 0) = 0 := by
    have hsq := sqrtf_mul_self (∑ axis, if config.isRotary axis then
      deltaMm config steps axis * deltaMm config steps axis else 0)
      (Finset.sum_nonneg fun axis _ => hnonneg axis)
    unfold rotaryDeg at h
    rw [h, mul_zero] at hsq
    exact hsq.symm
  have hzero := (Finset.sum_eq_zero_iff_of_nonneg fun axis _ => hnonneg axis).1 hsum
  unfold lengthMm linearMm
  congr 1
  refine Finset.sum_congr rfl fun axis _ => ?_
  cases hrotary : config.isRotary axis with
  | false => rw [if_neg Bool.false_ne_true]
  | true =>
    have haxis := hzero axis (Finset.mem_univ axis)
    rw [hrotary, if_pos rfl] at haxis
    rw [if_pos rfl, haxis]

omit [Libm K] [IsStrictOrderedRing K] [LawfulLibm K] in
theorem nominalSpeedMmS_unitsPerMin (config : PlannerConfig K) (feed : K) (units : Units)
    (millimeters : K) (unitVec : Axes K) :
    nominalSpeedMmS config feed units .unitsPerMin false millimeters unitVec
      = max (capBy (axisRateLimitMmS config unitVec) (feed * unitsScale units / 60)) 0 := rfl

omit [Libm K] [IsStrictOrderedRing K] [LawfulLibm K] in
theorem nominalSpeedMmS_inverseTime (config : PlannerConfig K) (feed : K) (units : Units)
    (millimeters : K) (unitVec : Axes K) :
    nominalSpeedMmS config feed units .inverseTime false millimeters unitVec
      = max (capBy (axisRateLimitMmS config unitVec) (millimeters * feed / 60)) 0 := rfl

/-- The speed that a feed asks for is the length over the minutes that it asks for. -/
theorem nominalSpeedMmS_blockFeed {config : PlannerConfig K} {steps : Axes Int32}
    (hrotary : rotaryDeg config steps = 0 ∨ lengthEpsilonMm < rotaryDeg config steps)
    (hlength : 0 < lengthMm config steps) (hfeed : 0 < feed) (unitVec : Axes K) :
    nominalSpeedMmS config (blockFeed config feed units feedMode false steps).1 units
        (blockFeed config feed units feedMode false steps).2 false (lengthMm config steps) unitVec
      = max (capBy (axisRateLimitMmS config unitVec)
          (lengthMm config steps / (60 * askedMinutes config feed units feedMode steps))) 0 := by
  have hscale := unitsScale_pos (K := K) units
  have hblock : blockFeed config feed units feedMode false steps
      = resolveFeed config feed feedMode units (deltaMm config steps) := rfl
  rw [hblock]
  unfold resolveFeed askedMinutes
  cases feedMode with
  | inverseTime =>
    rw [if_pos (by decide), nominalSpeedMmS_inverseTime]
    dsimp only
    congr 2
    field_simp
  | unitsPerMin =>
    rw [if_neg (by decide)]
    dsimp only
    have hlinear : sqrtf (∑ axis, if config.isRotary axis then 0
        else deltaMm config steps axis * deltaMm config steps axis) = linearMm config steps := rfl
    have hrotaryDeg : sqrtf (∑ axis, if config.isRotary axis then
        deltaMm config steps axis * deltaMm config steps axis else 0) = rotaryDeg config steps := rfl
    rw [hlinear, hrotaryDeg]
    by_cases hmixed : lengthEpsilonMm < linearMm config steps
        ∧ lengthEpsilonMm < rotaryDeg config steps
    · have hpos := lengthEpsilonMm_pos.trans hmixed.1
      rw [if_pos hmixed, nominalSpeedMmS_inverseTime]
      unfold fedMm
      rw [if_pos hmixed.1]
      congr 2
      field_simp
    · have hfed : fedMm config steps = lengthMm config steps := by
        unfold fedMm
        split
        · rename_i hlin
          exact (lengthMm_of_rotaryDeg (hrotary.resolve_right fun h => hmixed ⟨hlin, h⟩)).symm
        · rfl
      rw [if_neg hmixed, nominalSpeedMmS_unitsPerMin, hfed]
      congr 2
      field_simp

/-- **As long as no limit binds, a move lasts as long as its feed asks for.** -/
theorem buildBlock_minutes (h : p.buildBlock target feed units feedMode false jog = some block)
    (hfeed : 0 < feed)
    (hrotary : rotaryDeg p.config block.steps = 0
      ∨ lengthEpsilonMm < rotaryDeg p.config block.steps)
    (hunbound : Unbound p.config block (askedMinutes p.config feed units feedMode block.steps)) :
    block.millimeters / block.nominalSpeed / 60
      = askedMinutes p.config feed units feedMode block.steps := by
  have hb := buildBlock_spec h
  have hlength : 0 < block.millimeters := lengthEpsilonMm_pos.trans_le hb.length_le
  have hmm := hb.millimeters
  have hscale := unitsScale_pos (K := K) units
  set minutes := askedMinutes p.config feed units feedMode block.steps with hminutes
  have hpos : 0 < minutes := by
    rw [hminutes]
    unfold askedMinutes
    cases feedMode with
    | inverseTime => exact one_div_pos.2 hfeed
    | unitsPerMin =>
      refine div_pos ?_ (mul_pos hfeed hscale)
      unfold fedMm
      split
      · rename_i hlin
        exact lengthEpsilonMm_pos.trans hlin
      · exact hmm ▸ hlength
  have hwithin : ((block.millimeters / (60 * minutes) : K) : WithTop K)
      ≤ axisRateLimitMmS p.config block.unitVec := by
    refine le_tightest fun axis haxis => ?_
    have hdelta := hunbound axis haxis
    have hunit : |block.unitVec axis| = |deltaMm p.config block.steps axis| / block.millimeters := by
      rw [hb.unitVec, abs_mul, abs_of_pos (one_div_pos.2 hlength), mul_one_div]
    rw [hunit]
    calc block.millimeters / (60 * minutes)
          * (|deltaMm p.config block.steps axis| / block.millimeters)
        = |deltaMm p.config block.steps axis| / (60 * minutes) := by field_simp
      _ ≤ p.config.maxRateMmMin axis * minutes / (60 * minutes) :=
        div_le_div_of_nonneg_right hdelta (by positivity)
      _ = p.config.maxRateMmMin axis / 60 := by field_simp
  have hspeed : block.nominalSpeed = block.millimeters / (60 * minutes) := by
    rw [nominalSpeed_eq h, hmm, nominalSpeedMmS_blockFeed hrotary (hmm ▸ hlength) hfeed, ← hmm,
      ← hminutes, capBy_of_le hwithin]
    exact max_eq_left (by positivity)
  rw [hspeed]
  field_simp

/-- **What a block keeps to.** The axes that bind it stay within their rates and accelerations, and
as long as no rate binds, a feed move takes as long as its feed asks for. -/
theorem buildBlock_law (h : p.buildBlock target feed units feedMode rapid jog = some block) :
    block.Limited p.config ∧ (rapid = false → 0 < feed →
      (rotaryDeg p.config block.steps = 0 ∨ lengthEpsilonMm < rotaryDeg p.config block.steps) →
      Unbound p.config block (askedMinutes p.config feed units feedMode block.steps) →
      block.millimeters / block.nominalSpeed / 60
        = askedMinutes p.config feed units feedMode block.steps) := by
  refine ⟨limited_of_buildBlock h, fun hrapid hfeed hrotary hunbound => ?_⟩
  subst hrapid
  exact buildBlock_minutes h hfeed hrotary hunbound

/-! ### On fixed moves -/

section Fixed

variable {K : Type} [Field K] [LinearOrder K] [Libm K]

/-- A block is built of the move from the origin to a target. -/
theorem exists_buildBlock {config : PlannerConfig K} {target : Axes Int32}
    (h : ¬NoMove config target) (feed : K) (units : Units) (feedMode : FeedMode) (rapid jog : Bool) :
    ∃ block, (new config).buildBlock target feed units feedMode rapid jog = some block
      ∧ block.steps = target := by
  have hdelta : (new config).stepDelta target = target := funext fun axis => Int32.sub_zero _
  cases hbuild : (new config).buildBlock target feed units feedMode rapid jog with
  | none =>
    rw [buildBlock_eq_none_iff, hdelta] at hbuild
    exact absurd hbuild h
  | some block => exact ⟨block, rfl, (buildBlock_spec hbuild).steps.trans hdelta⟩

end Fixed

/-- The steps of 10 mm along X on the small machine. -/
theorem deltaMm_tenX (axis : Fin 4) :
    deltaMm (benchConfig (K := ℝ)) ![1000, 0, 0, 0] axis = if axis = xAxis then 10 else 0 := by
  have hx : deltaMm (benchConfig (K := ℝ)) ![1000, 0, 0, 0] 0 = ((1000 : ℤ) : ℝ) / 100 := rfl
  have hrest : ∀ axis : Fin 4, axis ≠ 0 →
      deltaMm (benchConfig (K := ℝ)) ![1000, 0, 0, 0] axis = ((0 : ℤ) : ℝ) / 100 := by
    intro axis haxis
    fin_cases axis
    · exact absurd rfl haxis
    all_goals rfl
  by_cases haxis : axis = xAxis
  · rw [if_pos haxis, haxis]
    exact hx.trans (by norm_num)
  · rw [if_neg haxis, hrest axis haxis, Int.cast_zero, zero_div]

theorem lengthMm_tenX : lengthMm (benchConfig (K := ℝ)) ![1000, 0, 0, 0] = 10 := by
  have hsum : ∑ axis, deltaMm (benchConfig (K := ℝ)) ![1000, 0, 0, 0] axis
      * deltaMm benchConfig ![1000, 0, 0, 0] axis = 10 * 10 := by
    simp only [deltaMm_tenX, xAxis]
    rw [Fin.sum_univ_four]
    simp
  unfold lengthMm
  rw [hsum]
  exact Real.sqrt_mul_self (by norm_num)

/-- No rotary axis steps. -/
theorem rotaryDeg_tenX : rotaryDeg (benchConfig (K := ℝ)) ![1000, 0, 0, 0] = 0 := by
  have hsum : ∑ axis, (if (benchConfig (K := ℝ)).isRotary axis then
      deltaMm (benchConfig (K := ℝ)) ![1000, 0, 0, 0] axis
        * deltaMm benchConfig ![1000, 0, 0, 0] axis else 0) = 0 := by
    refine Finset.sum_eq_zero fun axis _ => ?_
    rw [deltaMm_tenX]
    by_cases haxis : axis = xAxis
    · rw [haxis, if_neg (by decide)]
    · rw [if_neg haxis, mul_zero, ite_self]
  unfold rotaryDeg
  rw [hsum]
  exact Real.sqrt_zero

/-- 10 mm along X at 600 mm/min take the sixtieth part of a minute. -/
theorem buildBlock_law_tenX : ∃ block : Block ℝ,
    (new benchConfig).buildBlock ![1000, 0, 0, 0] 600 .millimeter .unitsPerMin false false
        = some block
      ∧ block.Limited benchConfig ∧ block.millimeters / block.nominalSpeed / 60 = 1 / 60 := by
  have hmove : ¬NoMove (benchConfig (K := ℝ)) ![1000, 0, 0, 0] := by
    rintro (hshort | hnone)
    · rw [lengthMm_tenX] at hshort
      unfold lengthEpsilonMm at hshort
      norm_num at hshort
    · exact absurd hnone (by decide)
  obtain ⟨block, hblock, hsteps⟩ :=
    exists_buildBlock hmove 600 .millimeter .unitsPerMin false false
  obtain ⟨hlimited, htime⟩ := buildBlock_law hblock
  have hasked : askedMinutes (benchConfig (K := ℝ)) 600 .millimeter .unitsPerMin block.steps
      = 1 / 60 := by
    have hfed : fedMm (benchConfig (K := ℝ)) ![1000, 0, 0, 0] = 10 := by
      unfold fedMm
      rw [← lengthMm_of_rotaryDeg rotaryDeg_tenX, lengthMm_tenX, ite_self]
    unfold askedMinutes
    dsimp only
    rw [hsteps, hfed]
    show (10 : ℝ) / (600 * 1) = 1 / 60
    norm_num
  refine ⟨block, hblock, hlimited, hasked ▸ htime rfl (by norm_num) (.inl ?_) fun axis _ => ?_⟩
  · rw [hsteps]
    exact rotaryDeg_tenX
  · show |deltaMm benchConfig block.steps axis| ≤ 6000 * askedMinutes benchConfig 600 .millimeter
      .unitsPerMin block.steps
    rw [hasked, hsteps, deltaMm_tenX]
    split <;> norm_num

/-- A machine with a slow and fine Y. -/
noncomputable def fineConfig : PlannerConfig ℝ where
  stepsPerMm := ![1, 1000000, 1, 1]
  maxRateMmMin := ![6000, 1 / 1000, 6000, 6000]
  accelMmS2 _ := 1000
  junctionDeviationMm := 1 / 100
  arcToleranceMm := 2 / 1000
  rotaryMask := 8
  stepsPerMm_pos axis := by fin_cases axis <;> norm_num
  maxRateMmMin_pos axis := by fin_cases axis <;> norm_num
  accelMmS2_pos _ := by norm_num
  junctionDeviationMm_nonneg := by norm_num
  arcToleranceMm_pos := by norm_num

theorem deltaMm_fine : deltaMm fineConfig ![1, 1, 0, 0] = ![1, 1 / 1000000, 0, 0] := by
  have hx : deltaMm fineConfig ![1, 1, 0, 0] 0 = ((1 : ℤ) : ℝ) / 1 := rfl
  have hy : deltaMm fineConfig ![1, 1, 0, 0] 1 = ((1 : ℤ) : ℝ) / 1000000 := rfl
  have hz : deltaMm fineConfig ![1, 1, 0, 0] 2 = ((0 : ℤ) : ℝ) / 1 := rfl
  have ha : deltaMm fineConfig ![1, 1, 0, 0] 3 = ((0 : ℤ) : ℝ) / 1 := rfl
  funext axis
  fin_cases axis
  · exact hx.trans (by norm_num)
  · exact hy.trans (by norm_num)
  · exact hz.trans (by norm_num)
  · exact ha.trans (by norm_num)

theorem one_le_lengthMm_fine : 1 ≤ lengthMm fineConfig ![1, 1, 0, 0] := by
  unfold lengthMm
  rw [deltaMm_fine, Fin.sum_univ_four]
  refine Real.one_le_sqrt.2 ?_
  show (1 : ℝ) ≤ 1 * 1 + 1 / 1000000 * (1 / 1000000) + 0 * 0 + 0 * 0
  norm_num

/-- A rapid along X with one fine step of Y takes Y faster than its rate. -/
theorem not_within_rates : ¬∀ (p : Planner ℝ) (target : Axes Int32) (feed : ℝ) (units : Units)
    (feedMode : FeedMode) (rapid jog : Bool) (block : Block ℝ),
    p.buildBlock target feed units feedMode rapid jog = some block →
      ∀ axis, block.steps axis ≠ 0 →
        block.nominalSpeed * |block.unitVec axis| ≤ p.config.maxRateMmMin axis / 60 := by
  intro hall
  have hmove : ¬NoMove fineConfig ![1, 1, 0, 0] := by
    rintro (hshort | hnone)
    · have hlong := one_le_lengthMm_fine
      unfold lengthEpsilonMm at hshort
      linarith
    · exact absurd hnone (by decide)
  obtain ⟨block, hblock, hsteps⟩ := exists_buildBlock hmove 0 .millimeter .unitsPerMin true false
  have hb := buildBlock_spec hblock
  have hlong : 1 ≤ block.millimeters := by
    rw [hb.millimeters, hsteps]
    exact one_le_lengthMm_fine
  have hunit : block.unitVec = fun axis =>
      (![1, 1 / 1000000, 0, 0] : Fin 4 → ℝ) axis * (1 / block.millimeters) := by
    rw [hb.unitVec, hsteps]
    show (fun axis => deltaMm fineConfig ![1, 1, 0, 0] axis * (1 / block.millimeters)) = _
    rw [deltaMm_fine]
  have hlength : 0 < block.millimeters := by linarith
  have hpos : 0 < 1 / block.millimeters := one_div_pos.2 hlength
  have hx : |block.unitVec 0| = 1 / block.millimeters := by
    rw [hunit]
    show |1 * (1 / block.millimeters)| = _
    rw [one_mul, abs_of_pos hpos]
  have hy : |block.unitVec 1| = 1 / 1000000 * (1 / block.millimeters) := by
    rw [hunit]
    show |1 / 1000000 * (1 / block.millimeters)| = _
    exact abs_of_pos (mul_pos (by norm_num) hpos)
  -- Only X counts.
  have hfaint : ∀ axis, axis ≠ 0 → |block.unitVec axis| ≤ lengthEpsilonMm := by
    intro axis haxis
    have hle : 1 / block.millimeters ≤ 1 := (div_le_one hlength).2 hlong
    have hcomponent : |(![1, 1 / 1000000, 0, 0] : Fin 4 → ℝ) axis| ≤ 1 / 1000000 := by
      fin_cases axis
      · exact absurd rfl haxis
      · exact (abs_of_pos (by norm_num)).le
      all_goals exact (abs_zero : |(0 : ℝ)| = 0).le.trans (by norm_num)
    rw [hunit]
    calc |(![1, 1 / 1000000, 0, 0] : Fin 4 → ℝ) axis * (1 / block.millimeters)|
        = |(![1, 1 / 1000000, 0, 0] : Fin 4 → ℝ) axis| * (1 / block.millimeters) := by
          rw [abs_mul, abs_of_pos hpos]
      _ ≤ 1 / 1000000 * 1 := mul_le_mul hcomponent hle hpos.le (by norm_num)
      _ = lengthEpsilonMm := mul_one _
  have hfast : ((100 * block.millimeters : ℝ) : WithTop ℝ)
      ≤ axisRateLimitMmS fineConfig block.unitVec := by
    refine le_tightest fun axis haxis => ?_
    by_cases hzero : axis = 0
    · subst hzero
      rw [hx]
      show 100 * block.millimeters * (1 / block.millimeters) ≤ 6000 / 60
      have hne := hlength.ne'
      field_simp
      norm_num
    · exact absurd haxis (not_lt.2 (hfaint axis hzero))
  have hspeed : 100 * block.millimeters ≤ block.nominalSpeed := by
    have hrate : ∀ axis, 0 < fineConfig.maxRateMmMin axis / 60 := fun axis =>
      div_pos (fineConfig.maxRateMmMin_pos axis) (by norm_num)
    obtain ⟨limit, hlimit, -⟩ := tightest_pos (unitNorm_of_buildBlock hblock) hrate
    have hlimit' : axisRateLimitMmS fineConfig block.unitVec = limit := hlimit
    have hnominal : block.nominalSpeed
        = (axisRateLimitMmS fineConfig block.unitVec).untopD 0 := nominalSpeed_eq hblock
    rw [hlimit'] at hfast hnominal
    rw [hnominal]
    exact WithTop.coe_le_coe.1 hfast
  have hslow : block.nominalSpeed * |block.unitVec 1| ≤ 1 / 1000 / 60 :=
    hall _ _ _ _ _ _ _ block hblock 1 (by rw [hsteps]; decide)
  rw [hy] at hslow
  have hreach : (100 * block.millimeters) * (1 / 1000000 * (1 / block.millimeters))
      ≤ block.nominalSpeed * (1 / 1000000 * (1 / block.millimeters)) :=
    mul_le_mul_of_nonneg_right hspeed (by positivity)
  have hvalue : (100 * block.millimeters) * (1 / 1000000 * (1 / block.millimeters)) = 1 / 10000 := by
    have hne := hlength.ne'
    field_simp
    norm_num
  rw [hvalue] at hreach
  norm_num at hslow hreach
  linarith

end Planner

end Galdr
