import Galdr.PlannerCommands

/-!
# What a built block is

`Planner.buildBlock` is taken apart once here: when it builds nothing
(`buildBlock_eq_none_iff`), which fields it copies from its arguments
(`buildBlock_spec`), and, with a lawful square root, what the numbers of a
block satisfy (`BlockSound`): a positive length and acceleration, a unit
direction, and an entry cap between rest and the cruise speed. The corner with
the previous block never admits more than that block's cruise speed
(`junctionSpeedSq_le`), because exact arithmetic never meets the two limits the
program guards against.
-/

namespace Galdr

variable {K : Type} [Field K] [LinearOrder K]

/-! ## Limits along a direction -/

section Limits

omit [Field K] in
@[simp] theorem capBy_top (x : K) : capBy ⊤ x = x := rfl

omit [Field K] in
@[simp] theorem capBy_coe (l x : K) : capBy (l : WithTop K) x = min l x := rfl

omit [Field K] in
theorem capBy_le (limit : WithTop K) (x : K) : capBy limit x ≤ x := by
  cases limit with
  | top => exact le_rfl
  | coe l => exact min_le_right l x

omit [Field K] in
theorem capBy_nonneg [Zero K] {limit : WithTop K} {x : K} (hl : 0 ≤ limit)
    (hx : 0 ≤ x) : 0 ≤ capBy limit x := by
  cases limit with
  | top => exact hx
  | coe l => exact le_min (WithTop.coe_nonneg.1 hl) hx

end Limits

namespace Planner

variable [IsStrictOrderedRing K]

theorem lengthEpsilonMm_pos : (0 : K) < lengthEpsilonMm := by
  unfold lengthEpsilonMm
  positivity

/-- A unit direction has a component that counts. -/
theorem exists_component {unitVec : Axes K} (h : ∑ axis, unitVec axis * unitVec axis = 1) :
    ∃ axis, lengthEpsilonMm < |unitVec axis| := by
  by_contra hnone
  push Not at hnone
  have hsq : ∀ axis, unitVec axis * unitVec axis ≤ 1 / 1000000 := by
    intro axis
    have hle := hnone axis
    unfold lengthEpsilonMm at hle
    calc unitVec axis * unitVec axis = |unitVec axis| * |unitVec axis| :=
          (abs_mul_abs_self _).symm
      _ ≤ 1 / 1000000 * (1 / 1000000) := mul_self_le_mul_self (abs_nonneg _) hle
      _ ≤ 1 / 1000000 := by norm_num
  have hsum : ∑ axis, unitVec axis * unitVec axis ≤ ∑ _axis : Fin 4, (1 / 1000000 : K) :=
    Finset.sum_le_sum fun axis _ => hsq axis
  rw [h, Finset.sum_const, Finset.card_univ, Fintype.card_fin] at hsum
  norm_num at hsum

/-- A limit along a unit direction is a positive number, never infinite. -/
theorem tightest_pos {unitVec limits : Axes K}
    (h : ∑ axis, unitVec axis * unitVec axis = 1) (hl : ∀ axis, 0 < limits axis) :
    ∃ x : K, tightest unitVec limits = x ∧ 0 < x := by
  obtain ⟨axis, haxis⟩ := exists_component h
  have hmem : axis ∈ Finset.univ.filter fun axis => lengthEpsilonMm < |unitVec axis| :=
    Finset.mem_filter.2 ⟨Finset.mem_univ axis, haxis⟩
  have hbelow : tightest unitVec limits ≤ ((limits axis / |unitVec axis| : K) : WithTop K) :=
    Finset.inf_le hmem
  have htop : tightest unitVec limits ≠ ⊤ :=
    ne_top_of_le_ne_top (WithTop.coe_ne_top) hbelow
  obtain ⟨x, hx⟩ := WithTop.ne_top_iff_exists.1 htop
  refine ⟨x, hx.symm, ?_⟩
  have hpos : (0 : WithTop K) < tightest unitVec limits := by
    refine (Finset.lt_inf_iff (WithTop.coe_lt_top (0 : K))).2 fun a ha => ?_
    have hcomp : lengthEpsilonMm < |unitVec a| := (Finset.mem_filter.1 ha).2
    exact WithTop.coe_lt_coe.2 (div_pos (hl a) (lengthEpsilonMm_pos.trans hcomp))
  rw [← hx] at hpos
  exact WithTop.coe_pos.1 hpos

theorem nominalSpeedMmS_nonneg (config : PlannerConfig K) (feed : K) (units : Units)
    (feedMode : FeedMode) (rapid : Bool) (millimeters : K) {unitVec : Axes K}
    (h : ∑ axis, unitVec axis * unitVec axis = 1) :
    0 ≤ nominalSpeedMmS config feed units feedMode rapid millimeters unitVec := by
  unfold nominalSpeedMmS
  cases rapid with
  | true =>
    have hrate : ∀ axis, 0 < config.maxRateMmMin axis / 60 := fun axis =>
      div_pos (config.maxRateMmMin_pos axis) (by norm_num)
    obtain ⟨x, hx, hpos⟩ := tightest_pos h hrate
    simp only [axisRateLimitMmS, hx, if_true, WithTop.untopD_coe]
    exact hpos.le
  | false => exact le_max_right _ _

/-! ## Nothing to build -/

variable [Libm K]

/-- A step difference that becomes no block: it has no length. -/
def NoMove (config : PlannerConfig K) (steps : Axes Int32) : Prop :=
  lengthMm config steps < lengthEpsilonMm ∨ dominantSteps steps = 0

instance (config : PlannerConfig K) (steps : Axes Int32) :
    Decidable (NoMove config steps) :=
  inferInstanceAs (Decidable (_ ∨ _))

omit [IsStrictOrderedRing K] in
theorem buildBlock_eq_none_iff (p : Planner K) (target : Axes Int32) (feed : K)
    (units : Units) (feedMode : FeedMode) (rapid jog : Bool) :
    p.buildBlock target feed units feedMode rapid jog = none
      ↔ NoMove p.config (p.stepDelta target) := by
  unfold buildBlock NoMove
  dsimp only
  split
  · rename_i h
    exact ⟨fun _ => h, fun _ => rfl⟩
  · rename_i h
    constructor
    · intro hnone
      cases hnone
    · exact fun h' => absurd h' h

/-- What a built block takes over from the planner and the arguments. -/
structure BuiltFrom (p : Planner K) (target : Axes Int32) (rapid jog : Bool)
    (block : Block K) : Prop where
  /-- The steps are the difference to the target. -/
  steps : block.steps = p.stepDelta target
  /-- The event count is the dominant step count. -/
  stepEventCount : block.stepEventCount = dominantSteps block.steps
  /-- Some axis steps. -/
  stepEventCount_ne : block.stepEventCount ≠ 0
  /-- The length is that of the steps. -/
  millimeters : block.millimeters = lengthMm p.config block.steps
  /-- The length counts. -/
  length_le : lengthEpsilonMm ≤ block.millimeters
  /-- The direction is the difference over its length. -/
  unitVec : block.unitVec =
    fun axis => deltaMm p.config block.steps axis * (1 / block.millimeters)
  /-- The acceleration is the one the axes allow. -/
  acceleration : block.acceleration =
    (limitingAcceleration block.unitVec p.config.accelMmS2).untopD 0
  /-- The cap is the corner speed within the cruise speed. -/
  maxEntrySpeedSq : block.maxEntrySpeedSq =
    capBy (p.junctionSpeedSq block.unitVec block.acceleration) block.nominalSpeedSq
  /-- The entry starts at the cap. -/
  entrySpeedSq : block.entrySpeedSq = block.maxEntrySpeedSq
  /-- The move is a rapid as asked. -/
  rapid : block.rapid = rapid
  /-- The move is a jog as asked. -/
  jog : block.jog = jog

omit [IsStrictOrderedRing K] in
theorem buildBlock_spec {p : Planner K} {target : Axes Int32} {feed : K}
    {units : Units} {feedMode : FeedMode} {rapid jog : Bool} {block : Block K}
    (h : p.buildBlock target feed units feedMode rapid jog = some block) :
    BuiltFrom p target rapid jog block := by
  unfold buildBlock at h
  dsimp only at h
  split at h
  · cases h
  · rename_i hlen
    push Not at hlen
    obtain rfl := Option.some.inj h
    exact ⟨rfl, rfl, hlen.2, rfl, hlen.1, rfl, rfl, rfl, rfl, rfl, rfl⟩

/-- The cruise speed of a block is the square of a speed. -/
theorem buildBlock_nominal {p : Planner K} {target : Axes Int32} {feed : K}
    {units : Units} {feedMode : FeedMode} {rapid jog : Bool} {block : Block K}
    (h : p.buildBlock target feed units feedMode rapid jog = some block) :
    0 ≤ block.nominalSpeedSq := by
  unfold buildBlock at h
  dsimp only at h
  split at h
  · cases h
  · obtain rfl := Option.some.inj h
    exact mul_self_nonneg _

/-! ## The numbers of a block -/

variable [LawfulLibm K]

omit [IsStrictOrderedRing K] in
theorem lengthMm_mul_self [IsStrictOrderedRing K] (config : PlannerConfig K)
    (steps : Axes Int32) :
    lengthMm config steps * lengthMm config steps
      = ∑ axis, deltaMm config steps axis * deltaMm config steps axis :=
  sqrtf_mul_self _ (Finset.sum_nonneg fun _ _ => mul_self_nonneg _)

/-- The numbers of a block are those of a move. -/
structure BlockSound (block : Block K) : Prop where
  /-- The event count is the dominant step count. -/
  events : block.stepEventCount = dominantSteps block.steps
  /-- The block has a length. -/
  millimeters_pos : 0 < block.millimeters
  /-- The block can change speed. -/
  acceleration_pos : 0 < block.acceleration
  /-- The direction has unit length. -/
  unit_norm : ∑ axis, block.unitVec axis * block.unitVec axis = 1
  /-- The cap is a squared speed. -/
  maxEntry_nonneg : 0 ≤ block.maxEntrySpeedSq
  /-- The cap is within the cruise speed. -/
  maxEntry_le : block.maxEntrySpeedSq ≤ block.nominalSpeedSq

/-- The junction state is one the planner leaves: a direction of length at most
one and a squared speed. -/
structure Cornerable (p : Planner K) : Prop where
  /-- The direction is at most a unit vector. -/
  norm_le : ∑ axis, p.prevUnitVec axis * p.prevUnitVec axis ≤ 1
  /-- The cruise speed is a squared speed. -/
  nominal_nonneg : 0 ≤ p.prevNominalSpeedSq

omit [Libm K] [LawfulLibm K] in
/-- The cosine of two directions is at most one. -/
theorem dot_le_one {u v : Axes K} (hu : ∑ axis, u axis * u axis ≤ 1)
    (hv : ∑ axis, v axis * v axis ≤ 1) : ∑ axis, u axis * v axis ≤ 1 := by
  have hpoint : ∀ axis, u axis * v axis ≤ (u axis * u axis + v axis * v axis) / 2 := by
    intro axis
    have hsq := mul_self_nonneg (u axis - v axis)
    linarith [hsq, mul_comm (u axis) (v axis)]
  calc ∑ axis, u axis * v axis
      ≤ ∑ axis, (u axis * u axis + v axis * v axis) / 2 :=
        Finset.sum_le_sum fun axis _ => hpoint axis
    _ = (∑ axis, u axis * u axis + ∑ axis, v axis * v axis) / 2 := by
        rw [← Finset.sum_div, Finset.sum_add_distrib]
    _ ≤ 1 := by linarith

/-- **The corner speed is within the last cruise speed.** It is never infinite:
a corner whose half-angle sine is tiny is a reversal, and was sent to zero. -/
theorem junctionSpeedSq_le {p : Planner K} (hp : Cornerable p) {unitVec : Axes K}
    (hu : ∑ axis, unitVec axis * unitVec axis = 1) {acceleration : K}
    (ha : 0 < acceleration) :
    0 ≤ p.junctionSpeedSq unitVec acceleration
      ∧ p.junctionSpeedSq unitVec acceleration ≤ (p.prevNominalSpeedSq : WithTop K) := by
  have hdot := dot_le_one hp.norm_le hu.le
  have hnom := hp.nominal_nonneg
  unfold junctionSpeedSq
  dsimp only
  set cosTheta := -∑ axis, p.prevUnitVec axis * unitVec axis with hcos
  split
  · exact ⟨le_rfl, WithTop.coe_le_coe.2 hnom⟩
  split
  · exact ⟨le_rfl, WithTop.coe_le_coe.2 hnom⟩
  rename_i _ hrev
  push Not at hrev
  unfold junctionReversalEpsilon at hrev ⊢
  -- The half-angle sine is between a thousandth and one.
  have hrad : 0 ≤ (1 - cosTheta) * (1 / 2) := by linarith
  have hsq := sqrtf_mul_self ((1 - cosTheta) * (1 / 2)) hrad
  rw [max_eq_left hrad]
  set sinHalf := sqrtf ((1 - cosTheta) * (1 / 2)) with hsin
  have hsin0 : 0 ≤ sinHalf := sqrtf_nonneg _
  have hlow : 1 / 1000000 < sinHalf := by
    by_contra hle
    push Not at hle
    have hsmall := mul_self_le_mul_self hsin0 hle
    linarith
  have hhigh : sinHalf ≤ 1 := by
    by_contra hgt
    push Not at hgt
    have hbig := mul_self_le_mul_self (by norm_num) hgt.le
    nlinarith
  rw [if_neg (not_le.2 hlow)]
  split
  · exact ⟨WithTop.coe_nonneg.2 hnom, le_rfl⟩
  · refine ⟨WithTop.coe_nonneg.2 (le_min ?_ hnom), WithTop.coe_le_coe.2 (min_le_right _ _)⟩
    refine mul_nonneg ha.le (div_nonneg ?_ (by linarith))
    exact mul_nonneg p.config.junctionDeviationMm_nonneg hsin0

/-- The direction of a block has length one. -/
theorem unitNorm_of_buildBlock {p : Planner K} {target : Axes Int32} {feed : K} {units : Units}
    {feedMode : FeedMode} {rapid jog : Bool} {block : Block K}
    (h : p.buildBlock target feed units feedMode rapid jog = some block) :
    ∑ axis, block.unitVec axis * block.unitVec axis = 1 := by
  have hb := buildBlock_spec h
  have hlen : 0 < block.millimeters := lengthEpsilonMm_pos.trans_le hb.length_le
  have hroot := lengthMm_mul_self p.config block.steps
  rw [← hb.millimeters] at hroot
  have hterm : ∀ axis, block.unitVec axis * block.unitVec axis
      = deltaMm p.config block.steps axis * deltaMm p.config block.steps axis
        * (1 / (block.millimeters * block.millimeters)) := by
    intro axis
    rw [hb.unitVec]
    field_simp
  rw [Finset.sum_congr rfl fun axis _ => hterm axis, ← Finset.sum_mul, ← hroot]
  exact mul_one_div_cancel (mul_pos hlen hlen).ne'

/-- **A built block is sound**, and its cap is within the last cruise speed. -/
theorem buildBlock_sound {p : Planner K} (hp : Cornerable p) {target : Axes Int32}
    {feed : K} {units : Units} {feedMode : FeedMode} {rapid jog : Bool} {block : Block K}
    (h : p.buildBlock target feed units feedMode rapid jog = some block) :
    BlockSound block ∧ block.maxEntrySpeedSq ≤ p.prevNominalSpeedSq := by
  have hb := buildBlock_spec h
  have hnom := buildBlock_nominal h
  have hlen : 0 < block.millimeters := lengthEpsilonMm_pos.trans_le hb.length_le
  have hnorm := unitNorm_of_buildBlock h
  obtain ⟨a, ha, hapos⟩ := tightest_pos hnorm p.config.accelMmS2_pos
  have hacc : 0 < block.acceleration := by
    rw [hb.acceleration, limitingAcceleration, ha]
    exact hapos
  obtain ⟨hj0, hjle⟩ := junctionSpeedSq_le hp hnorm hacc
  refine ⟨⟨hb.stepEventCount, hlen, hacc, hnorm, ?_, ?_⟩, ?_⟩
  · rw [hb.maxEntrySpeedSq]
    exact capBy_nonneg hj0 hnom
  · rw [hb.maxEntrySpeedSq]
    exact capBy_le _ _
  · rw [hb.maxEntrySpeedSq]
    obtain ⟨j, hj⟩ := WithTop.ne_top_iff_exists.1
      (ne_top_of_le_ne_top WithTop.coe_ne_top hjle)
    rw [← hj] at hjle ⊢
    exact (min_le_left _ _).trans (WithTop.coe_le_coe.1 hjle)

end Planner

end Galdr
