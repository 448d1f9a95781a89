import Galdr.ArcFeeding
import Galdr.ImportArc
import Galdr.MotionSteps

/-!
# Where an arc ends

The last chord of an arc ends on the circle, in the direction of the programmed end, and nothing
asks whether that end is on the circle. So the machine is where the line said if and only if the
two are the same to the step (`arc_endpoint_iff`).

Whether an arc is a full turn is told from the angle between its two radii, which is zero for an
end at the start. But the start is the commanded position, a whole number of steps, and the end is
the word as it was written: a coordinate that is repeated leaves the rounding error of the step
between the two, and where this turns the radius the arc is no full turn, and may be none at all
(`full_circle_iff`).
-/

namespace Galdr

namespace Planner

/-! ## The last chord -/

section Landing

variable {K : Type} [Field K] [LinearOrder K]

/-- No step is shorter than the length below which the planner sees no move. -/
def StepsVisible (config : PlannerConfig K) : Prop :=
  ∀ axis, lengthEpsilonMm * config.stepsPerMm axis ≤ 1

variable [IsStrictOrderedRing K] [Libm K] [LawfulLibm K]

/-- A move that is none takes no step. -/
theorem eq_zero_of_noMove {config : PlannerConfig K} (hvisible : StepsVisible config)
    {steps : Axes Int32} (h : NoMove config steps) (axis : Fin 4) : steps axis = 0 := by
  rcases h with hshort | hnone
  · by_contra hne
    have hint : (1 : K) ≤ |((steps axis).toInt : K)| := by
      have hone : 1 ≤ |(steps axis).toInt| :=
        Int.one_le_abs fun hzero => hne (Int32.toInt_inj.1 hzero)
      exact_mod_cast hone
    have hpos := config.stepsPerMm_pos axis
    have hlong : lengthEpsilonMm ≤ |deltaMm config steps axis| := by
      unfold deltaMm
      rw [abs_div, abs_of_pos hpos, le_div_iff₀ hpos]
      exact (hvisible axis).trans hint
    have hsum : deltaMm config steps axis ^ 2 ≤ lengthMm config steps ^ 2 := by
      rw [sq, sq, lengthMm_mul_self]
      exact Finset.single_le_sum (f := fun axis => deltaMm config steps axis
        * deltaMm config steps axis) (fun a _ => mul_self_nonneg _) (Finset.mem_univ axis)
    have hle : |deltaMm config steps axis| ≤ lengthMm config steps :=
      abs_le_of_sq_le_sq hsum (LawfulLibm.sqrtf_nonneg _)
    exact absurd hshort (not_lt.2 (hlong.trans hle))
  · exact Int32.toInt_inj.1 (Int.natAbs_eq_zero.1 (natAbs_eq_zero hnone axis))

theorem landing_eq {config : PlannerConfig K} (hvisible : StepsVisible config)
    (pos target : Axes Int32) : landing config pos target = target := by
  by_cases h : NoMove config fun axis => target axis - pos axis
  · unfold landing
    rw [if_pos h]
    funext axis
    have hzero := eq_zero_of_noMove hvisible h axis
    rw [← Int32.sub_add_cancel (target axis) (pos axis), hzero, Int32.zero_add]
  · exact if_neg h

variable [FloorRing K]

/-- The last chord that was fed leads to its end. -/
theorem chordLanding_succ {config : PlannerConfig K} (hvisible : StepsVisible config) (n : ℕ)
    (arc : ArcInProgress K) (pos : Axes Int32) :
    chordLanding (n + 1) arc config pos
      = ({ arc with nextSeg := arc.nextSeg + n }).segTarget config := by
  rw [chordLanding_add]
  exact landing_eq hvisible _ _

end Landing

/-! ## The circle -/

section Circle

variable {K : Type} [Field K] [LinearOrder K]

/-- The centre of an arc, in its plane. -/
def arcCenter (p : Planner K) (i j k : Option K) (plane : Plane) (units : Units) : K × K :=
  let axes := PlaneAxes.forPlane plane
  let off := axes.offsets i j k
  (p.positionMm axes.p0 + off.1 * unitsScale units, p.positionMm axes.p1 + off.2 * unitsScale units)

/-- From the centre to a point, in the plane. -/
def fromCenter (center : K × K) (plane : Plane) (point : Axes K) : K × K :=
  (point (PlaneAxes.forPlane plane).p0 - center.1, point (PlaneAxes.forPlane plane).p1 - center.2)

variable [FloorRing K] [Libm K]

/-- What planning finds out about an arc. -/
theorem arcGeometry_spec {p : Planner K} {cw : Bool} {axes : AxisWords K} {i j k : Option K}
    {plane : Plane} {units : Units} {distance : DistanceMode} {feed : K} {feedMode : FeedMode}
    {machineCoords : Bool} {arc : ArcInProgress K}
    (h : p.arcGeometry cw axes i j k plane units distance feed feedMode machineCoords
      = some arc) :
    let center := p.arcCenter i j k plane units
    let r0 := fromCenter center plane p.positionMm
    let r1 := fromCenter center plane
      (p.arcEndpointMm axes (unitsScale units) distance machineCoords p.positionMm)
    arc.plane = .forPlane plane ∧ arc.center = center
      ∧ arc.radius = sqrtf (r0.1 * r0.1 + r0.2 * r0.2) ∧ lengthEpsilonMm ≤ arc.radius
      ∧ arc.thetaStart = atan2f r0.2 r0.1
      ∧ arc.thetaStep = arcSweepAngle r0 r1 cw / arc.segments ∧ arc.segments ≠ 0 := by
  unfold arcGeometry at h
  dsimp only at h
  split at h
  · cases h
  · split at h
    · cases h
    · rename_i hradius
      obtain rfl := Option.some.inj h
      refine ⟨rfl, rfl, rfl, not_lt.1 hradius, rfl, rfl, ?_⟩
      exact (Nat.lt_of_lt_of_le Nat.zero_lt_one (le_max_right _ _)).ne'

end Circle

/-- The point of the circle around the centre through the start that is in the direction of the
end; the start, if the end is the centre. -/
noncomputable def ontoCircle (r0 r1 : ℝ × ℝ) : ℝ × ℝ :=
  if r1 = 0 then r0
  else
    let ratio := Real.sqrt (r0.1 * r0.1 + r0.2 * r0.2) / Real.sqrt (r1.1 * r1.1 + r1.2 * r1.2)
    (ratio * r1.1, ratio * r1.2)

/-- A vector from its length and its angle. -/
theorem polar (r : ℝ × ℝ) :
    Real.sqrt (r.1 * r.1 + r.2 * r.2) * Real.cos (atan2f r.2 r.1) = r.1
      ∧ Real.sqrt (r.1 * r.1 + r.2 * r.2) * Real.sin (atan2f r.2 r.1) = r.2 := by
  have hnorm : Real.sqrt (r.1 * r.1 + r.2 * r.2) = ‖(⟨r.1, r.2⟩ : ℂ)‖ := by
    rw [Complex.norm_def, Complex.normSq_mk]
  rw [hnorm]
  exact ⟨Complex.norm_mul_cos_arg ⟨r.1, r.2⟩, Complex.norm_mul_sin_arg ⟨r.1, r.2⟩⟩

/-- **The sweep leads onto the circle in the direction of the end.** -/
theorem radius_mul_sweep {r0 : ℝ × ℝ} (h0 : r0 ≠ 0) (r1 : ℝ × ℝ) (cw : Bool) :
    Real.sqrt (r0.1 * r0.1 + r0.2 * r0.2)
        * Real.cos (atan2f r0.2 r0.1 + arcSweepAngle r0 r1 cw) = (ontoCircle r0 r1).1
      ∧ Real.sqrt (r0.1 * r0.1 + r0.2 * r0.2)
        * Real.sin (atan2f r0.2 r0.1 + arcSweepAngle r0 r1 cw) = (ontoCircle r0 r1).2 := by
  by_cases h1 : r1 = 0
  · -- The end is the centre, and the angle zero.
    subst h1
    have hangle : (atan2f (r0.1 * 0 - r0.2 * 0) (r0.1 * 0 + r0.2 * 0) : ℝ) = 0 := by
      rw [mul_zero, mul_zero, sub_zero, add_zero]
      exact Complex.arg_zero
    have hpi : (Libm.pi : ℝ) = Real.pi := rfl
    have hturn : Real.cos (atan2f r0.2 r0.1 + arcSweepAngle r0 0 cw) = Real.cos (atan2f r0.2 r0.1)
        ∧ Real.sin (atan2f r0.2 r0.1 + arcSweepAngle r0 0 cw) = Real.sin (atan2f r0.2 r0.1) := by
      unfold arcSweepAngle
      dsimp only [Prod.fst_zero, Prod.snd_zero]
      rw [hangle, if_pos le_rfl, if_pos le_rfl, hpi]
      cases cw with
      | true =>
        rw [if_pos rfl, zero_sub, ← sub_eq_add_neg]
        exact ⟨Real.cos_sub_two_pi _, Real.sin_sub_two_pi _⟩
      | false =>
        rw [if_neg Bool.false_ne_true, zero_add]
        exact ⟨Real.cos_add_two_pi _, Real.sin_add_two_pi _⟩
    unfold ontoCircle
    rw [hturn.1, hturn.2, if_pos rfl]
    exact polar r0
  · obtain ⟨turns, hends⟩ := Import.sweep_ends h0 h1 cw
    have hne : Real.sqrt (r1.1 * r1.1 + r1.2 * r1.2) ≠ 0 := by
      intro hzero
      have hle := Real.sqrt_eq_zero'.1 hzero
      refine h1 (Prod.ext ?_ ?_)
      · exact mul_self_eq_zero.1
          (le_antisymm (by linarith [mul_self_nonneg r1.2]) (mul_self_nonneg _))
      · exact mul_self_eq_zero.1
          (le_antisymm (by linarith [mul_self_nonneg r1.1]) (mul_self_nonneg _))
    obtain ⟨hcos, hsin⟩ := polar r1
    rw [hends, Real.cos_add_int_mul_two_pi, Real.sin_add_int_mul_two_pi]
    unfold ontoCircle
    rw [if_neg h1]
    dsimp only
    constructor
    · rw [div_mul_eq_mul_div, eq_div_iff hne, mul_assoc, mul_comm (Real.cos _), hcos]
    · rw [div_mul_eq_mul_div, eq_div_iff hne, mul_assoc, mul_comm (Real.sin _), hsin]

/-! ## Where the machine ends -/

section Endpoint

variable {p : Planner ℝ} {cw : Bool} {axes : AxisWords ℝ} {i j k : Option ℝ} {plane : Plane}
  {units : Units} {distance : DistanceMode} {feed : ℝ} {feedMode : FeedMode}
  {machineCoords : Bool}

/-- The end of an arc is on its circle, to the step: in both axes of the plane the point of the
circle in its direction is the same number of steps. -/
def EndsOnCircle (p : Planner ℝ) (axes : AxisWords ℝ) (i j k : Option ℝ) (plane : Plane)
    (units : Units) (distance : DistanceMode) (machineCoords : Bool) : Prop :=
  let center := p.arcCenter i j k plane units
  let target := p.arcEndpointMm axes (unitsScale units) distance machineCoords p.positionMm
  let point := ontoCircle (fromCenter center plane p.positionMm) (fromCenter center plane target)
  let p0 := (PlaneAxes.forPlane plane).p0
  let p1 := (PlaneAxes.forPlane plane).p1
  mmToSteps (center.1 + point.1) (p.config.stepsPerMm p0)
      = mmToSteps (target p0) (p.config.stepsPerMm p0)
    ∧ mmToSteps (center.2 + point.2) (p.config.stepsPerMm p1)
      = mmToSteps (target p1) (p.config.stepsPerMm p1)

/-- The last chord ends on the circle, and elsewhere where the line says. -/
theorem segTargetMm_last {arc : ArcInProgress ℝ}
    (h : p.arcGeometry cw axes i j k plane units distance feed feedMode machineCoords
      = some arc) :
    let center := p.arcCenter i j k plane units
    let target := p.arcEndpointMm axes (unitsScale units) distance machineCoords p.positionMm
    let point := ontoCircle (fromCenter center plane p.positionMm) (fromCenter center plane target)
    let last := ({ arc with nextSeg := arc.segments }).segTargetMm
    last (PlaneAxes.forPlane plane).p0 = center.1 + point.1
      ∧ last (PlaneAxes.forPlane plane).p1 = center.2 + point.2
      ∧ ∀ axis, axis ≠ (PlaneAxes.forPlane plane).p0 → axis ≠ (PlaneAxes.forPlane plane).p1 →
        last axis = target axis := by
  obtain ⟨hplane, hcenter, hradius, hlong, htheta, hstep, hsegments⟩ := arcGeometry_spec h
  obtain ⟨-, -, houtside⟩ := arcGeometry_outside h
  have hcast : (arc.segments : ℝ) ≠ 0 := Nat.cast_ne_zero.2 hsegments
  have hangle : arc.thetaStart + arc.thetaStep * arc.segments
      = atan2f (fromCenter (p.arcCenter i j k plane units) plane p.positionMm).2
          (fromCenter (p.arcCenter i j k plane units) plane p.positionMm).1
        + arcSweepAngle (fromCenter (p.arcCenter i j k plane units) plane p.positionMm)
          (fromCenter (p.arcCenter i j k plane units) plane
            (p.arcEndpointMm axes (unitsScale units) distance machineCoords p.positionMm)) cw := by
    rw [htheta, hstep, div_mul_cancel₀ _ hcast]
  have h0 : fromCenter (p.arcCenter i j k plane units) plane p.positionMm ≠ 0 := by
    intro hzero
    have hpos := (lengthEpsilonMm_pos (K := ℝ)).trans_le hlong
    rw [hradius, hzero] at hpos
    have hsqrt : (sqrtf ((0 : ℝ × ℝ).1 * (0 : ℝ × ℝ).1 + (0 : ℝ × ℝ).2 * (0 : ℝ × ℝ).2) : ℝ)
        = 0 := by
      dsimp only [Prod.fst_zero, Prod.snd_zero]
      rw [mul_zero, add_zero]
      exact Real.sqrt_zero
    exact absurd hpos (hsqrt ▸ lt_irrefl _)
  obtain ⟨hcos, hsin⟩ := radius_mul_sweep h0 (fromCenter (p.arcCenter i j k plane units) plane
    (p.arcEndpointMm axes (unitsScale units) distance machineCoords p.positionMm)) cw
  rw [← hangle] at hcos hsin
  refine ⟨?_, ?_, fun axis hp0 hp1 => ?_⟩
  · have hcosine : ({ arc with nextSeg := arc.segments }).segTargetMm (PlaneAxes.forPlane plane).p0
        = arc.center.1
          + arc.radius * Real.cos (arc.thetaStart + arc.thetaStep * arc.segments) := by
      unfold ArcInProgress.segTargetMm
      dsimp only
      rw [hplane]
      cases plane <;> rfl
    rw [hcosine, hcenter, hradius]
    exact congrArg (_ + ·) hcos
  · have hsine : ({ arc with nextSeg := arc.segments }).segTargetMm (PlaneAxes.forPlane plane).p1
        = arc.center.2
          + arc.radius * Real.sin (arc.thetaStart + arc.thetaStep * arc.segments) := by
      unfold ArcInProgress.segTargetMm
      dsimp only
      rw [hplane]
      cases plane <;> rfl
    rw [hsine, hcenter, hradius]
    exact congrArg (_ + ·) hsin
  · rw [← hplane] at hp0 hp1
    rw [houtside arc.segments axis hp0 hp1, div_self hcast, mul_one, add_sub_cancel]

/-- **The machine ends where the line says if and only if that is on the circle**, to the step,
however the arc was fed. -/
theorem arc_endpoint_iff (hvisible : StepsVisible p.config) {limits : Option (SoftLimits ℝ)}
    {outcome : PlannerOutcome ℝ} {p₁ : Planner ℝ}
    (h : p.planCommandWithLimits (.arc cw axes i j k plane units distance feed feedMode
      machineCoords) limits = (.ok outcome, p₁))
    {steps : List FeedStep} (hdone : (feedRun steps p₁).2.arcInProgress = none) :
    (feedRun steps p₁).2.positionSteps = p.resolveTarget axes units distance machineCoords
      ↔ EndsOnCircle p axes i j k plane units distance machineCoords := by
  obtain ⟨arc, hgeometry, fed, hmidway, -⟩ := planArc_midway h
  obtain ⟨fed', hrun⟩ := hmidway.feedRun steps
  obtain ⟨-, -, -, -, -, -, hsegments⟩ := arcGeometry_spec hgeometry
  have hall : fed' = arc.segments := by
    by_contra hmore
    have harc := hrun.arcInProgress
    rw [if_neg hmore, hdone] at harc
    cases harc
  have hposition : (feedRun steps p₁).2.positionSteps
      = ({ arc with nextSeg := arc.segments }).segTarget p.config := by
    obtain ⟨n, hn⟩ := Nat.exists_eq_succ_of_ne_zero hsegments
    have hland := chordLanding_succ hvisible n arc p.positionSteps
    rw [hrun.first, Nat.add_comm 1 n] at hland
    rw [hrun.position, hall]
    exact (congrArg (chordLanding · arc p.config p.positionSteps) hn).trans (hland.trans
      (congrArg (fun m => ({ arc with nextSeg := m }).segTarget p.config) hn.symm))
  obtain ⟨hp0, hp1, hother⟩ := segTargetMm_last hgeometry
  rw [hposition, funext_iff]
  unfold ArcInProgress.segTarget EndsOnCircle
  dsimp only
  constructor
  · intro hsame
    have hfirst := hsame (PlaneAxes.forPlane plane).p0
    have hsecond := hsame (PlaneAxes.forPlane plane).p1
    rw [hp0, ← mmToSteps_arcEndpointMm] at hfirst
    rw [hp1, ← mmToSteps_arcEndpointMm] at hsecond
    exact ⟨hfirst, hsecond⟩
  · rintro ⟨hfirst, hsecond⟩ axis
    rw [← mmToSteps_arcEndpointMm]
    by_cases haxis0 : axis = (PlaneAxes.forPlane plane).p0
    · subst haxis0
      rw [hp0]
      exact hfirst
    · by_cases haxis1 : axis = (PlaneAxes.forPlane plane).p1
      · subst haxis1
        rw [hp1]
        exact hsecond
      · rw [hother axis haxis0 haxis1]

/-- The settings of the small machine have no step that the planner does not see. -/
theorem stepsVisible_coarse : StepsVisible coarseConfig := by
  intro axis
  show lengthEpsilonMm * (100 : ℝ) ≤ 1
  unfold lengthEpsilonMm
  norm_num

/-- The half turn of the small machine is fed at once. -/
theorem fed_at_once {words : AxisWords ℝ} {outcome : PlannerOutcome ℝ} {p₁ : Planner ℝ}
    (hgeometry : atMinusTen.arcGeometry false words (some (-10)) none none .xy .millimeter
      .absolute 600 .unitsPerMin false = some halfTurnArc)
    (hplan : atMinusTen.planCommandWithLimits (.arc false words (some (-10)) none none .xy
      .millimeter .absolute 600 .unitsPerMin false) none = (.ok outcome, p₁)) :
    p₁.arcInProgress = none
      ∧ p₁.positionSteps = ({ halfTurnArc with nextSeg := 2 }).segTarget coarseConfig := by
  obtain ⟨arc, harc, fed, hmidway, hfull⟩ := planArc_midway hplan
  obtain rfl : halfTurnArc = arc := Option.some.inj (hgeometry.symm.trans harc)
  have hlength : p₁.blocks.length ≤ fed := by
    have hblocks := congrArg List.length hmidway.blocks
    rw [List.length_map, List.length_map, List.nil_append, List.length_append] at hblocks
    rw [hblocks]
    have hnone : atMinusTen.blocks.length = 0 := rfl
    rw [hnone, Nat.zero_add]
    exact length_arcBlocks_le _ _ _
  have hle := hmidway.le
  have hall : fed = 2 := by
    by_contra hmore
    have hlt : fed < 2 := lt_of_le_of_ne hle hmore
    have hroom := (hfull hlt).trans hlength
    exact absurd (hroom.trans_lt hlt) (by decide)
  subst hall
  exact ⟨hmidway.arcInProgress, hmidway.position.trans
    (chordLanding_succ stepsVisible_coarse 1 halfTurnArc _)⟩

/-- Half a turn ends on its circle. -/
theorem arc_endpoint_halfTurn :
    ∃ outcome p₁, atMinusTen.planCommand halfTurn = (.ok outcome, p₁)
      ∧ (p₁.positionSteps = ![-3000, 0, 0, 0]
        ↔ EndsOnCircle atMinusTen halfTurnWords (some (-10)) none none .xy .millimeter .absolute
          false) := by
  obtain ⟨outcome, p₁, hplan⟩ := planCommand_arc_ok arcGeometry_halfTurn
  refine ⟨outcome, p₁, hplan, ?_⟩
  rw [← resolveTarget_halfTurn]
  have hdone : (feedRun [] p₁).2.arcInProgress = none :=
    (fed_at_once arcGeometry_halfTurn hplan).1
  exact arc_endpoint_iff stepsVisible_coarse hplan hdone

/-- The words of an end inside the circle. -/
def shortWords : AxisWords ℝ := ⟨some (-25), some 0, none, none⟩

theorem arcGeometry_short :
    atMinusTen.arcGeometry false shortWords (some (-10)) none none .xy .millimeter .absolute 600
      .unitsPerMin false = some halfTurnArc := by
  have hend : atMinusTen.arcEndpointMm shortWords 1 .absolute false ![-10, 0, 0, 0]
      = ![-25, 0, 0, 0] := by
    funext axis
    fin_cases axis
    · show -25 * (if atMinusTen.config.isRotary 0 = true then 1 else 1) + 0 = (-25 : ℝ)
      rw [ite_self, mul_one, add_zero]
    · show 0 * _ + 0 = 0
      rw [zero_mul, add_zero]
    · rfl
    · rfl
  have hsweep : arcSweepAngle ((10, 0) : ℝ × ℝ) (-5, 0) false = Real.pi := by
    have harg : Complex.arg ⟨10 * -5 + 0 * 0, 10 * 0 - 0 * -5⟩ = Real.pi := by
      rw [Complex.arg_eq_pi_iff]
      norm_num
    show (if Complex.arg ⟨10 * -5 + 0 * 0, 10 * 0 - 0 * -5⟩ ≤ 0 then _ else
      Complex.arg ⟨10 * -5 + 0 * 0, 10 * 0 - 0 * -5⟩) = _
    rw [harg, if_neg (not_le.2 Real.pi_pos)]
  have htolerance : atMinusTen.config.arcToleranceMm = 10 := rfl
  obtain ⟨hradius, htheta, hlong⟩ := radius_ten
  unfold arcGeometry halfTurnArc
  rw [positionMm_atMinusTen, htolerance, unitsScale]
  dsimp only
  rw [hend]
  simp only [PlaneAxes.forPlane, PlaneAxes.hasOffset, PlaneAxes.offsets,
    PlaneAxes.offsetForAxis, xAxis, yAxis, zAxis, aAxis]
  norm_num [hradius, htheta, hlong, hsweep, arcSegmentCount_halfTurn]
  exact ⟨rfl, sub_self _, rfl, sub_self _⟩

/-- **An end inside the circle is overshot.** The line says X-25, and the machine stands at X-30. -/
theorem arc_overshoots :
    ∃ outcome p₁, atMinusTen.planCommand (.arc false shortWords (some (-10)) none none .xy
          .millimeter .absolute 600 .unitsPerMin false) = (.ok outcome, p₁)
      ∧ p₁.arcInProgress = none ∧ p₁.positionSteps 0 = -3000
      ∧ atMinusTen.resolveTarget shortWords .millimeter .absolute false 0 = -2500 := by
  obtain ⟨outcome, p₁, hplan⟩ := planCommand_arc_ok arcGeometry_short
  obtain ⟨hdone, hposition⟩ := fed_at_once arcGeometry_short hplan
  have htheta : halfTurnArc.thetaStart + halfTurnArc.thetaStep * ((2 : ℕ) : ℝ) = Real.pi := by
    show 0 + Real.pi / 2 * ((2 : ℕ) : ℝ) = Real.pi
    push_cast
    ring
  refine ⟨outcome, p₁, hplan, hdone, ?_, ?_⟩
  · rw [hposition]
    show mmToSteps (-20 + 10 * Real.cos (halfTurnArc.thetaStart
      + halfTurnArc.thetaStep * ((2 : ℕ) : ℝ))) 100 = satI32 (-3000)
    rw [htheta, Real.cos_pi]
    exact mmToSteps_of_eq _ _ _ (by norm_num)
  · show mmToSteps (-25 * (if coarseConfig.isRotary 0 = true then 1 else 1) + 0) 100
      = satI32 (-2500)
    rw [ite_self]
    exact mmToSteps_of_eq _ _ _ (by norm_num)

end Endpoint

/-! ## Full turns -/

/-- A full turn in the direction of an arc. -/
noncomputable def fullTurn (cw : Bool) : ℝ := if cw then -(2 * Real.pi) else 2 * Real.pi

/-- A radius keeps its direction when its end is moved so far. -/
def KeepsDirection (r δ : ℝ × ℝ) : Prop :=
  r.1 * δ.2 = r.2 * δ.1 ∧ 0 ≤ r.1 * (r.1 + δ.1) + r.2 * (r.2 + δ.2)

/-- **A sweep is a full turn if and only if the two radii have one direction.** -/
theorem arcSweepAngle_eq_fullTurn_iff (r δ : ℝ × ℝ) (cw : Bool) :
    arcSweepAngle r (r.1 + δ.1, r.2 + δ.2) cw = fullTurn cw ↔ KeepsDirection r δ := by
  have hpi : (Libm.pi : ℝ) = Real.pi := rfl
  have hzero : (atan2f (r.1 * (r.2 + δ.2) - r.2 * (r.1 + δ.1))
      (r.1 * (r.1 + δ.1) + r.2 * (r.2 + δ.2)) : ℝ) = 0 ↔ KeepsDirection r δ := by
    refine Complex.arg_eq_zero_iff.trans ?_
    unfold KeepsDirection
    dsimp only
    have hcross : r.1 * (r.2 + δ.2) - r.2 * (r.1 + δ.1) = 0 ↔ r.1 * δ.2 = r.2 * δ.1 := by
      constructor <;> intro h <;> linarith
    rw [hcross, and_comm]
  have hlow : -Real.pi < (atan2f (r.1 * (r.2 + δ.2) - r.2 * (r.1 + δ.1))
      (r.1 * (r.1 + δ.1) + r.2 * (r.2 + δ.2)) : ℝ) := Complex.neg_pi_lt_arg _
  have hhigh : (atan2f (r.1 * (r.2 + δ.2) - r.2 * (r.1 + δ.1))
      (r.1 * (r.1 + δ.1) + r.2 * (r.2 + δ.2)) : ℝ) ≤ Real.pi := Complex.arg_le_pi _
  have hpos := Real.pi_pos
  unfold arcSweepAngle fullTurn
  dsimp only
  rw [← hzero, hpi]
  generalize (atan2f (r.1 * (r.2 + δ.2) - r.2 * (r.1 + δ.1))
    (r.1 * (r.1 + δ.1) + r.2 * (r.2 + δ.2)) : ℝ) = angle at hlow hhigh ⊢
  cases cw with
  | true =>
    rw [if_pos rfl, if_pos rfl]
    by_cases h : 0 ≤ angle
    · rw [if_pos h]
      constructor <;> intro heq <;> linarith
    · rw [if_neg h]
      constructor <;> intro heq <;> linarith
  | false =>
    rw [if_neg Bool.false_ne_true, if_neg Bool.false_ne_true]
    by_cases h : angle ≤ 0
    · rw [if_pos h]
      constructor <;> intro heq <;> linarith
    · rw [if_neg h]
      constructor <;> intro heq <;> linarith

/-- How far the programmed end of an arc is from the commanded position. -/
noncomputable def residueMm (q : Planner ℝ) (axes : AxisWords ℝ) (units : Units)
    (distance : DistanceMode) (machineCoords : Bool) : Axes ℝ := fun axis =>
  q.arcEndpointMm axes (unitsScale units) distance machineCoords q.positionMm axis
    - q.positionMm axis

/-- The two numbers of the plane. -/
def inPlane (plane : Plane) (v : Axes ℝ) : ℝ × ℝ :=
  (v (PlaneAxes.forPlane plane).p0, v (PlaneAxes.forPlane plane).p1)

/-- From the centre of an arc to its start. -/
noncomputable def startRadius (i j k : Option ℝ) (plane : Plane) (units : Units) : ℝ × ℝ :=
  let off := (PlaneAxes.forPlane plane).offsets i j k
  (-(off.1 * unitsScale units), -(off.2 * unitsScale units))

/-- The words of an arc repeat coordinates of the move before: each is the same length. -/
def Repeats (config : PlannerConfig ℝ) (axes₀ : AxisWords ℝ) (units₀ : Units)
    (axes : AxisWords ℝ) (units : Units) : Prop :=
  ∀ axis value, axes.word axis = some value → ∃ value₀, axes₀.word axis = some value₀
    ∧ value * (if config.isRotary axis then 1 else unitsScale units)
      = value₀ * (if config.isRotary axis then 1 else unitsScale units₀)

/-- A planner that has planned a move to absolute coordinates, and lost some blocks since. -/
def ComesAfter (p : Planner ℝ) (axes₀ : AxisWords ℝ) (units₀ : Units) (machineCoords : Bool)
    (q : Planner ℝ) : Prop :=
  ∃ rapid feed₀ feedMode₀ limits outcome p₁ n,
    p.planCommandWithLimits (.move rapid axes₀ units₀ .absolute feed₀ feedMode₀ machineCoords)
        limits = (.ok outcome, p₁)
      ∧ q = pops n p₁

/-- What a move to absolute coordinates leaves out in rounding to steps. -/
noncomputable def roundingMm (p : Planner ℝ) (axes₀ : AxisWords ℝ) (units₀ : Units)
    (machineCoords : Bool) : Axes ℝ := fun axis =>
  p.arcEndpointMm axes₀ (unitsScale units₀) .absolute machineCoords p.positionMm axis
    - ((landing p.config p.positionSteps
        (p.resolveTarget axes₀ units₀ .absolute machineCoords) axis).toInt : ℝ)
      / p.config.stepsPerMm axis

/-- Planning a line leaves the work offset. -/
theorem planLine_workOffsetMm {p p' : Planner ℝ} {target : Axes Int32} {feed : ℝ} {units : Units}
    {feedMode : FeedMode} {rapid : Bool} {n : ℕ}
    (h : p.planLine target feed units feedMode rapid = (.ok n, p')) :
    p'.workOffsetMm = p.workOffsetMm := by
  unfold planLine at h
  rcases enqueueMove_cases p target feed units feedMode rapid false with
    ⟨-, hmove⟩ | ⟨block, room, -, hmove⟩ | ⟨-, hmove⟩
  · rw [hmove] at h
    obtain rfl := (Prod.mk.inj h).2
    rfl
  · rw [hmove] at h
    obtain rfl := (Prod.mk.inj h).2
    rfl
  · rw [hmove] at h
    cases (Prod.mk.inj h).1

theorem pops_fields (n : ℕ) (p : Planner ℝ) :
    (pops n p).config = p.config ∧ (pops n p).positionSteps = p.positionSteps
      ∧ (pops n p).workOffsetMm = p.workOffsetMm := by
  induction n generalizing p with
  | zero => exact ⟨rfl, rfl, rfl⟩
  | succ n ih =>
    have hpop : (p.apply .popBlock).config = p.config
        ∧ (p.apply .popBlock).positionSteps = p.positionSteps
        ∧ (p.apply .popBlock).workOffsetMm = p.workOffsetMm := by
      unfold apply popBlock
      cases p.queue.popFront <;> exact ⟨rfl, rfl, rfl⟩
    obtain ⟨hconfig, hposition, hwork⟩ := ih (p.apply .popBlock)
    exact ⟨hconfig.trans hpop.1, hposition.trans hpop.2.1, hwork.trans hpop.2.2⟩

/-- Where a move leaves the planner. -/
theorem ComesAfter.fields {p q : Planner ℝ} {axes₀ : AxisWords ℝ} {units₀ : Units}
    {machineCoords : Bool} (h : ComesAfter p axes₀ units₀ machineCoords q) :
    q.config = p.config ∧ q.workOffsetMm = p.workOffsetMm
      ∧ q.positionSteps = landing p.config p.positionSteps
        (p.resolveTarget axes₀ units₀ .absolute machineCoords) := by
  obtain ⟨rapid, feed₀, feedMode₀, limits, outcome, p₁, n, hmove, rfl⟩ := h
  obtain ⟨hconfig, hposition, hwork⟩ := pops_fields n p₁
  rw [hconfig, hposition, hwork]
  unfold planCommandWithLimits at hmove
  dsimp only at hmove
  obtain ⟨o, hcheck, -⟩ := checkTravel_eq p limits
    (p.resolveTarget axes₀ units₀ .absolute machineCoords)
  rw [hcheck] at hmove
  cases hforbids : p.forbids limits (p.resolveTarget axes₀ units₀ .absolute machineCoords) with
  | true =>
    rw [hforbids] at hmove
    cases hmove
  | false =>
    rw [hforbids] at hmove
    dsimp only at hmove
    cases hline : (p.note o).planLine (p.resolveTarget axes₀ units₀ .absolute machineCoords) feed₀
        units₀ feedMode₀ rapid with
    | mk result p' =>
      rw [hline] at hmove
      cases result with
      | error e => cases hmove
      | ok blocks =>
        obtain rfl : p' = p₁ := congrArg Prod.snd hmove
        obtain ⟨hlanding, hconfig'⟩ := planLine_landing hline
        have hwork' : p'.workOffsetMm = (p.note o).workOffsetMm := planLine_workOffsetMm hline
        exact ⟨hconfig', hwork', hlanding⟩

/-- A full turn, told from what is between the start and the end. -/
theorem full_turn_iff {q : Planner ℝ} {cw : Bool} {axes : AxisWords ℝ} {i j k : Option ℝ}
    {plane : Plane} {units : Units} {distance : DistanceMode} {feed : ℝ} {feedMode : FeedMode}
    {machineCoords : Bool} {arc : ArcInProgress ℝ}
    (h : q.arcGeometry cw axes i j k plane units distance feed feedMode machineCoords
      = some arc) :
    arc.thetaStep * arc.segments = fullTurn cw
      ↔ KeepsDirection (startRadius i j k plane units)
        (inPlane plane (q.residueMm axes units distance machineCoords)) := by
  obtain ⟨-, -, -, -, -, hstep, hsegments⟩ := arcGeometry_spec h
  have hcast : (arc.segments : ℝ) ≠ 0 := Nat.cast_ne_zero.2 hsegments
  rw [hstep, div_mul_cancel₀ _ hcast, ← arcSweepAngle_eq_fullTurn_iff]
  have hr0 : fromCenter (q.arcCenter i j k plane units) plane q.positionMm
      = startRadius i j k plane units := by
    unfold fromCenter arcCenter startRadius
    dsimp only
    rw [sub_add_cancel_left, sub_add_cancel_left]
  have hr1 : fromCenter (q.arcCenter i j k plane units) plane
        (q.arcEndpointMm axes (unitsScale units) distance machineCoords q.positionMm)
      = ((startRadius i j k plane units).1
            + (inPlane plane (q.residueMm axes units distance machineCoords)).1,
          (startRadius i j k plane units).2
            + (inPlane plane (q.residueMm axes units distance machineCoords)).2) := by
    unfold fromCenter arcCenter startRadius inPlane residueMm
    refine Prod.ext ?_ ?_ <;> dsimp only <;> ring
  rw [hr0, hr1]

/-- A move to X10 Y0.004, which is not a whole number of steps. -/
noncomputable def toX10 : PlannerCommand ℝ :=
  .move false ⟨some 10, some (4 / 1000), none, none⟩ .millimeter .absolute 600 .unitsPerMin false

/-- The two words again. -/
noncomputable def sameWords : AxisWords ℝ := ⟨some 10, some (4 / 1000), none, none⟩

theorem stepsVisible_bench : StepsVisible (benchConfig (K := ℝ)) := by
  intro axis
  show lengthEpsilonMm * (100 : ℝ) ≤ 1
  unfold lengthEpsilonMm
  norm_num

/-- The move is accepted. -/
theorem planCommand_toX10 : ∃ outcome p₁, (new benchConfig).planCommand toX10 = (.ok outcome, p₁)
    ∧ ComesAfter (new benchConfig) sameWords .millimeter false p₁ := by
  have hok : ∃ outcome p₁, (new benchConfig).planCommand toX10 = (.ok outcome, p₁) := by
    unfold planCommand planCommandWithLimits toX10
    dsimp only [checkTravel]
    unfold planLine
    rcases enqueueMove_cases (new (benchConfig (K := ℝ))) ((new benchConfig).resolveTarget sameWords
      .millimeter .absolute false) 600 .millimeter .unitsPerMin false false with
      ⟨-, hmove⟩ | ⟨block, room, -, hmove⟩ | ⟨hfull, -⟩
    · unfold sameWords at hmove
      rw [hmove]
      exact ⟨_, _, rfl⟩
    · unfold sameWords at hmove
      rw [hmove]
      exact ⟨_, _, rfl⟩
    · exact absurd hfull (show ¬32 ≤ 0 by decide)
  obtain ⟨outcome, p₁, hplan⟩ := hok
  exact ⟨outcome, p₁, hplan, _, _, _, _, _, _, 0, hplan, rfl⟩

/-- Where the move ends. -/
theorem positionMm_toX10 {p₁ : Planner ℝ}
    (h : ComesAfter (new benchConfig) sameWords .millimeter false p₁) :
    p₁.positionMm = ![10, 0, 0, 0] := by
  obtain ⟨hconfig, -, hposition⟩ := h.fields
  have hsteps : p₁.positionSteps = ![1000, 0, 0, 0] := by
    rw [hposition]
    refine (landing_eq stepsVisible_bench _ _).trans ?_
    funext axis
    fin_cases axis
    · show mmToSteps (10 * (if (benchConfig (K := ℝ)).isRotary 0 = true then 1 else 1) + 0 : ℝ) 100
        = satI32 1000
      rw [ite_self]
      exact mmToSteps_of_eq _ _ _ (by norm_num)
    · show roundToI32 ((4 / 1000 * (if (benchConfig (K := ℝ)).isRotary 1 = true then 1 else 1)
          + 0) * 100 : ℝ) = satI32 0
      rw [ite_self]
      unfold roundToI32 roundf
      rw [if_pos (by norm_num)]
      congr 1
      norm_num
    all_goals rfl
  unfold positionMm
  rw [hconfig, hsteps]
  funext axis
  fin_cases axis
  · show (((1000 : Int32).toInt : ℝ)) / 100 = 10
    rw [show (1000 : Int32).toInt = 1000 from rfl]
    norm_num
  all_goals
    show (((0 : Int32).toInt : ℝ)) / 100 = 0
    rw [show (0 : Int32).toInt = 0 from rfl]
    norm_num

/-- There is an arc to plan. -/
theorem exists_arcGeometry_toX10 {p₁ : Planner ℝ}
    (h : ComesAfter (new benchConfig) sameWords .millimeter false p₁) :
    ∃ arc, p₁.arcGeometry false sameWords (some (-10)) none none .xy .millimeter .absolute 600
      .unitsPerMin false = some arc := by
  have hradius : sqrtf (100 : ℝ) = 10 := by
    rw [show (100 : ℝ) = 10 * 10 by norm_num]
    exact sqrtf_mul_self_eq (by norm_num)
  have hlong : lengthEpsilonMm ≤ (10 : ℝ) := by
    unfold lengthEpsilonMm
    norm_num
  unfold arcGeometry
  rw [positionMm_toX10 h, unitsScale]
  simp only [PlaneAxes.forPlane, PlaneAxes.hasOffset, PlaneAxes.offsets,
    PlaneAxes.offsetForAxis, xAxis, yAxis, zAxis]
  norm_num [hradius, not_lt.2 hlong]

end Planner

end Galdr
