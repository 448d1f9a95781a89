import Galdr.ImportMoves

/-!
# Arcs in the import

An arc that the import reads as the machine does is the same arc in both: the import draws it
within its tolerance (`import_draws`), the planner has the centre, the radius and the sweep of it
(`arcGeometry_alike`), and both end where the line says (`arc_draws`).
-/

namespace Galdr.Import

/-! ## Arcs -/

theorem polar (r : ℝ × ℝ) :
    hypot r.1 r.2 * Real.cos (atan2f r.2 r.1) = r.1
      ∧ hypot r.1 r.2 * Real.sin (atan2f r.2 r.1) = r.2 := by
  have hnorm : hypot r.1 r.2 = ‖ofPair r‖ := by
    show Real.sqrt _ = _
    rw [Complex.norm_eq_sqrt_sq_add_sq, pow_two, pow_two]
    rfl
  rw [hnorm]
  exact ⟨Complex.norm_mul_cos_arg (ofPair r), Complex.norm_mul_sin_arg (ofPair r)⟩

/-- An arc begins where the line does. -/
theorem arc_at_zero (modal : Modal ℝ) (line : GcodeLine ℝ) (ccw : Bool) :
    (modal.arc line ccw).at 0 = modal.pos := by
  obtain ⟨hcos, hsin⟩ := polar (modal.startRadius line)
  unfold HelicalArc.at Modal.arc
  dsimp only
  rw [mul_zero, mul_zero, add_zero, add_zero, hcos, hsin]
  unfold Modal.startRadius
  dsimp only
  rw [add_sub_cancel, add_sub_cancel]

/-- The sweep of an arc that the import can tell from none. -/
theorem arcSweep_bounds (a b : ℝ) (ccw full : Bool)
    (hturn : full = true ∨ f64Epsilon < remEuclid (b - a) tau ∧ remEuclid (b - a) tau < tau - f64Epsilon) :
    f64Epsilon < |arcSweep a b ccw full| ∧ |arcSweep a b ccw full| ≤ tau := by
  have htau := tau_pos
  have heps : (f64Epsilon : ℝ) < tau := by
    have hpi := Real.pi_gt_three
    show 1 / 4503599627370496 < 2 * Real.pi
    linarith
  have heps0 : (0 : ℝ) < f64Epsilon := by
    unfold f64Epsilon
    norm_num
  unfold arcSweep
  dsimp only
  rcases hturn with rfl | ⟨hlow, hhigh⟩
  · rw [if_pos rfl]
    have habs : |if ccw = true then (tau : ℝ) else -tau| = tau := by
      split
      · exact abs_of_pos htau
      · rw [abs_neg, abs_of_pos htau]
    rw [habs]
    exact ⟨heps, le_rfl⟩
  · split
    · have habs : |if ccw = true then (tau : ℝ) else -tau| = tau := by
        split
        · exact abs_of_pos htau
        · rw [abs_neg, abs_of_pos htau]
      rw [habs]
      exact ⟨heps, le_rfl⟩
    · rw [if_neg (not_le.2 hlow), if_neg (not_le.2 hlow)]
      split
      · rw [abs_of_pos (heps0.trans hlow)]
        exact ⟨hlow, by linarith⟩
      · rw [abs_of_neg (by linarith)]
        constructor <;> linarith

/-- **The import draws its arc.** -/
theorem import_draws {arc : HelicalArc} {prev : Point3 ℝ} (hprev : arc.at 0 = prev)
    (hr : 0 < arc.radius) (hsweep : f64Epsilon < |arc.sweep|) (hturn : |arc.sweep| ≤ tau)
    (hfine : arc.radius * (1 - Real.cos (|arc.sweep| / (2 * 512))) ≤ chordToleranceMm)
    {pts : List (ℝ × ℝ)}
    (hpts : pts = flattenArc arc.center.1 arc.center.2 arc.radius arc.thetaStart arc.sweep)
    {ms : List (PreviewMove ℝ)} (hms : ms = chords arc.zStart arc.zDelta pts.length 0 prev pts) :
    (∀ m ∈ ms, m.kind = .cut)
      ∧ ms.map PreviewMove.start = (List.range ms.length).map (fun k : ℕ => arc.at ((k : ℝ) / ms.length))
      ∧ ms.map PreviewMove.target
        = (List.range ms.length).map (fun k : ℕ => arc.at (((k + 1 : ℕ) : ℝ) / ms.length))
      ∧ ∀ k < ms.length, ∀ s, (k : ℝ) / ms.length ≤ s → s ≤ ((k + 1 : ℕ) : ℝ) / ms.length →
        arc.NearChord ((k : ℝ) / ms.length) (((k + 1 : ℕ) : ℝ) / ms.length) s chordToleranceMm := by
  have heps0 : (0 : ℝ) < f64Epsilon := by
    unfold f64Epsilon
    norm_num
  obtain ⟨height, hsagitta⟩ := arcSegmentCount_spec hr (heps0.trans hsweep) hfine
  unfold flattenArc at hpts
  rw [if_neg (by push Not; exact ⟨hr, hsweep⟩)] at hpts
  dsimp only at hpts
  set n := arcSegmentCount arc.radius |arc.sweep| with hn
  have hn8 : (8 : ℝ) ≤ n := by exact_mod_cast height
  have hlength : pts.length = n := by rw [hpts, List.length_map, List.length_range]
  rw [hlength, hpts, List.range_eq_range'] at hms
  obtain ⟨htargets, hstarts, hcuts⟩ := chords_points arc.zStart arc.zDelta n
    (fun i => (arc.center.1 + arc.radius
        * cosf (arc.thetaStart + arc.sweep * ((i + 1 : ℕ) : ℝ) / (n : ℝ)),
      arc.center.2 + arc.radius
        * sinf (arc.thetaStart + arc.sweep * ((i + 1 : ℕ) : ℝ) / (n : ℝ)))) n 0 prev
  dsimp only at htargets hstarts hcuts
  rw [← hms] at htargets hstarts hcuts
  have hhelix : (fun i : ℕ => (⟨arc.center.1 + arc.radius
        * cosf (arc.thetaStart + arc.sweep * ((i + 1 : ℕ) : ℝ) / (n : ℝ)),
      arc.center.2 + arc.radius
        * sinf (arc.thetaStart + arc.sweep * ((i + 1 : ℕ) : ℝ) / (n : ℝ)),
      arc.zStart + arc.zDelta * (((i + 1 : ℕ) : ℝ) / n)⟩ : Point3 ℝ))
      = fun i : ℕ => arc.at (((i + 1 : ℕ) : ℝ) / n) := by
    funext i
    unfold HelicalArc.at
    rw [mul_div_assoc]
    rfl
  rw [hhelix] at htargets hstarts
  have hcount : ms.length = n := by
    have h := congrArg List.length htargets
    rwa [List.length_map, List.length_map, List.length_range'] at h
  rw [hcount, List.range_eq_range']
  refine ⟨hcuts, ?_, htargets, fun k hk s hlow hhigh => ?_⟩
  · rw [hstarts]
    refine List.ext_getElem ?_ fun k hk hk' => ?_
    · rw [List.length_take, List.length_cons, List.length_map, List.length_map, List.length_range']
      omega
    · rw [List.getElem_take, List.getElem_map, List.getElem_range']
      cases k with
      | zero =>
        rw [List.getElem_cons_zero]
        push_cast
        rw [zero_div, hprev]
      | succ k =>
        rw [List.getElem_cons_succ, List.getElem_map, List.getElem_range', one_mul, one_mul]
        simp only [zero_add]
  · -- the chord is as close as its middle
    have hpi := Real.pi_pos
    have hn0 : (0 : ℝ) < n := by linarith
    have hhalf : |arc.sweep * (1 / (2 * n))| = |arc.sweep| / (2 * n) := by
      rw [abs_mul, abs_of_pos (by positivity : (0 : ℝ) < 1 / (2 * n)), mul_one_div]
    have hlow' : -(1 / (2 * (n : ℝ))) ≤ s - (2 * k + 1) / (2 * n) := by
      have hk : (k : ℝ) / n = (2 * k + 1) / (2 * n) - 1 / (2 * n) := by
        field_simp
        ring
      linarith
    have hhigh' : s - (2 * k + 1) / (2 * n) ≤ 1 / (2 * (n : ℝ)) := by
      have hk : ((k + 1 : ℕ) : ℝ) / n = (2 * k + 1) / (2 * n) + 1 / (2 * n) := by
        push_cast
        field_simp
        ring
      linarith
    have hphi : |arc.sweep * (s - (2 * k + 1) / (2 * n))| ≤ |arc.sweep * (1 / (2 * n))| := by
      rw [abs_mul, abs_mul]
      refine mul_le_mul_of_nonneg_left ?_ (abs_nonneg _)
      rw [abs_of_pos (by positivity : (0 : ℝ) < 1 / (2 * n))]
      exact abs_le.2 ⟨hlow', hhigh'⟩
    have hquarter : |arc.sweep * (1 / (2 * n))| ≤ Real.pi / 2 := by
      rw [hhalf, div_le_iff₀ (by linarith)]
      have htau : (tau : ℝ) = 2 * Real.pi := rfl
      rw [htau] at hturn
      nlinarith
    have hnear : arc.NearChord ((2 * k + 1) / (2 * n) - 1 / (2 * n))
        ((2 * k + 1) / (2 * n) + 1 / (2 * n))
        ((2 * k + 1) / (2 * n) + (s - (2 * k + 1) / (2 * n)))
        (arc.radius * (1 - Real.cos (arc.sweep * (1 / (2 * n))))) :=
      HelicalArc.nearChord hr.le hphi hquarter
    obtain ⟨u, hu0, hu1, hu⟩ := hnear
    have ha : (2 * (k : ℝ) + 1) / (2 * n) - 1 / (2 * n) = k / n := by
      field_simp
      ring
    have hb : (2 * (k : ℝ) + 1) / (2 * n) + 1 / (2 * n) = ((k + 1 : ℕ) : ℝ) / n := by
      push_cast
      field_simp
      ring
    rw [ha, hb, add_sub_cancel] at hu
    refine ⟨u, hu0, hu1, hu.trans ?_⟩
    refine pow_le_pow_left₀ (mul_nonneg hr.le (sub_nonneg.2 (Real.cos_le_one _))) ?_ 2
    rw [← Real.cos_abs, hhalf]
    exact hsagitta

/-- **The planner takes a line for the same arc.** -/
theorem arcGeometry_alike {p : Planner ℝ} {modal : Modal ℝ} {line : GcodeLine ℝ} {cw : Bool}
    {axes : AxisWords ℝ} {i j k : Option ℝ} {plane : Plane} {units : Units}
    {distance : DistanceMode} {feed : ℝ} {feedMode : FeedMode} {machineCoords : Bool}
    (hoffset : p.workOffsetMm = fun _ => 0)
    (hdistance : modal.absolute = decide (distance = .absolute))
    (hunits : modal.unitsScale = unitsScale units) (hwords : SameWords line axes)
    (hi : line.value 'I' = i) (hj : line.value 'J' = j)
    (h : ArcAlike p modal line cw axes i j plane units) :
    ∃ arc, p.arcGeometry cw axes i j k plane units distance feed feedMode machineCoords = some arc
      ∧ 0 < arc.segments
      ∧ ∀ n, ∀ axis, axis ≠ aAxis →
        ({ arc with nextSeg := n } : ArcInProgress ℝ).segTargetMm axis
          = ((modal.arc line !cw).at ((n : ℝ) / arc.segments)).along axis := by
  have hstart : ∀ axis, axis ≠ aAxis → p.positionMm axis = modal.pos.along axis := by
    intro axis haxis
    unfold Planner.positionMm
    rw [h.start axis haxis, mul_div_cancel_right₀ _ (p.config.stepsPerMm_pos axis).ne']
  have htarget : ∀ axis, axis ≠ aAxis →
      p.arcEndpointMm axes (unitsScale units) distance machineCoords p.positionMm axis
        = (modal.target line).along axis := by
    intro axis haxis
    rw [target_along modal line axis haxis, hwords axis haxis, hdistance, hunits]
    unfold Planner.arcEndpointMm
    cases hword : axes.word axis with
    | none => exact hstart axis haxis
    | some v =>
      have hscale := machineScale haxis (by rw [hword]; exact Option.some_ne_none v) h.linear
      dsimp only
      rw [hscale, hoffset, hstart axis haxis]
      unfold resolve
      dsimp only
      cases distance with
      | absolute =>
        dsimp only
        rw [if_pos (decide_eq_true rfl), add_zero, ite_self]
      | incremental =>
        dsimp only
        rw [if_neg (by decide)]
  have hradius : 0 < (modal.arc line !cw).radius := by
    refine lt_of_lt_of_le ?_ h.radius
    unfold lengthEpsilonMm
    norm_num
  have hstartRadius : modal.startRadius line ≠ 0 := by
    intro hzero
    have hnone : (modal.arc line !cw).radius = 0 := by
      show hypot (modal.startRadius line).1 (modal.startRadius line).2 = 0
      rw [hzero]
      show Real.sqrt (0 * 0 + 0 * 0) = 0
      rw [mul_zero, add_zero, Real.sqrt_zero]
    exact hradius.ne' hnone
  have hsweep : (modal.arc line !cw).sweep
      = arcSweepAngle (modal.startRadius line) (modal.endRadius line) cw := by
    have hturn : modal.full line = true ∧ modal.endRadius line = modal.startRadius line
        ∨ modal.full line = false ∧ f64Epsilon < modal.turn line :=
      h.turn.imp id fun h => ⟨h.1, h.2.1⟩
    have hsame := arcSweep_eq hstartRadius h.outside hturn (!cw)
    rwa [Bool.not_not] at hsame
  have hhas : (!(PlaneAxes.forPlane .xy).hasOffset i j k) = false := by
    show (!(i.isSome || j.isSome)) = false
    rcases h.centre with hi | hj
    · rw [hi, Bool.true_or, Bool.not_true]
    · rw [hj, Bool.or_true, Bool.not_true]
  unfold Planner.arcGeometry
  rw [h.plane.1]
  dsimp only
  rw [hhas, if_neg Bool.false_ne_true]
  have hx : p.positionMm (PlaneAxes.forPlane .xy).p0 = modal.pos.x := hstart xAxis (by decide)
  have hy : p.positionMm (PlaneAxes.forPlane .xy).p1 = modal.pos.y := hstart yAxis (by decide)
  have hz : p.positionMm (PlaneAxes.forPlane .xy).normal = modal.pos.z := hstart zAxis (by decide)
  have htx : p.arcEndpointMm axes (unitsScale units) distance machineCoords p.positionMm
      (PlaneAxes.forPlane .xy).p0 = (modal.target line).x := htarget xAxis (by decide)
  have hty : p.arcEndpointMm axes (unitsScale units) distance machineCoords p.positionMm
      (PlaneAxes.forPlane .xy).p1 = (modal.target line).y := htarget yAxis (by decide)
  have htz : p.arcEndpointMm axes (unitsScale units) distance machineCoords p.positionMm
      (PlaneAxes.forPlane .xy).normal = (modal.target line).z := htarget zAxis (by decide)
  have hcenter : (modal.pos.x + ((PlaneAxes.forPlane .xy).offsets i j k).1 * unitsScale units,
      modal.pos.y + ((PlaneAxes.forPlane .xy).offsets i j k).2 * unitsScale units)
      = modal.center line := by
    unfold Modal.center
    rw [hi, hj, hunits]
    rfl
  have hc1 := congrArg Prod.fst hcenter
  have hc2 := congrArg Prod.snd hcenter
  dsimp only at hc1 hc2
  rw [hx, hy, hz, htx, hty, htz, hc1, hc2]
  have hshort : ¬ sqrtf ((modal.pos.x - (modal.center line).1) * (modal.pos.x - (modal.center line).1)
      + (modal.pos.y - (modal.center line).2) * (modal.pos.y - (modal.center line).2))
      < lengthEpsilonMm := not_lt.2 h.radius
  rw [if_neg hshort]
  refine ⟨_, rfl, lt_of_lt_of_le Nat.one_pos (le_max_right _ _), fun n => ?_⟩
  generalize Galdr.arcSegmentCount _ _ p.config.arcToleranceMm = segments
  have htheta : (modal.arc line !cw).sweep * ((n : ℝ) / segments)
      = arcSweepAngle (modal.startRadius line) (modal.endRadius line) cw / segments * n := by
    rw [hsweep]
    ring
  refine axis_cases ?_ ?_ ?_
  · show _ = (modal.center line).1 + _ * Real.cos (_ + (modal.arc line !cw).sweep * _)
    rw [htheta]
    rfl
  · show _ = (modal.center line).2 + _ * Real.sin (_ + (modal.arc line !cw).sweep * _)
    rw [htheta]
    rfl
  · rfl

/-- Moves through a sequence of positions. -/
theorem movesThrough_eq (rapid : Bool) (g : ℕ → Axes Int32) (m k : ℕ) :
    movesThrough rapid (g k) ((List.range' k m).map fun n => g (n + 1))
      = (List.range' k m).map fun n => ⟨rapid, g n, g (n + 1)⟩ := by
  induction m generalizing k with
  | zero => rfl
  | succ m ih =>
    rw [List.range'_succ, List.map_cons, List.map_cons]
    unfold movesThrough
    rw [ih (k + 1)]

/-- The planner counts the steps to a point of an arc. -/
theorem near_segTarget {config : PlannerConfig ℝ} {arc : ArcInProgress ℝ} {q : Point3 ℝ}
    (hq : ∀ axis, axis ≠ aAxis → arc.segTargetMm axis = q.along axis)
    (hfits : ∀ axis, axis ≠ aAxis → FitsI32 (roundf (q.along axis * config.stepsPerMm axis)))
    (axis : Fin 4) (haxis : axis ≠ aAxis) :
    (arc.segTarget config axis).toInt = roundf (q.along axis * config.stepsPerMm axis) := by
  unfold ArcInProgress.segTarget mmToSteps
  rw [toInt_roundToI32, hq axis haxis, clampI32_of_fits (hfits axis haxis)]

/-- **The two cut one arc**, and both end at its end. -/
theorem arc_draws {p : Planner ℝ} {modal : Modal ℝ} {line : GcodeLine ℝ} {cw : Bool}
    {axes : AxisWords ℝ} {i j : Option ℝ} (k : Option ℝ) {plane : Plane} {units : Units}
    {distance : DistanceMode} (feed : ℝ) (feedMode : FeedMode) (machineCoords : Bool)
    (predefined : Bool → Axes ℝ) (state : ModalState ℝ)
    (hpos : Near p.config modal.pos p.positionSteps) (hoffset : p.workOffsetMm = fun _ => 0)
    (hdistance : modal.absolute = decide (distance = .absolute))
    (hunits : modal.unitsScale = unitsScale units) (hwords : SameWords line axes)
    (hi : line.value 'I' = i) (hj : line.value 'J' = j)
    (h : ArcAlike p modal line cw axes i j plane units)
    {pts : List (ℝ × ℝ)} (hpts : pts = flattenArc (modal.arc line !cw).center.1
      (modal.arc line !cw).center.2 (modal.arc line !cw).radius (modal.arc line !cw).thetaStart
      (modal.arc line !cw).sweep) :
    let ends := ((⟨state, p, predefined⟩ : Interpreter ℝ).commandEnds
      (.arc cw axes i j k plane units distance feed feedMode machineCoords))
    ends.1 = false
      ∧ Draws p.config (modal.arc line !cw)
        (chords (modal.arc line !cw).zStart (modal.arc line !cw).zDelta pts.length 0 modal.pos pts)
        (movesThrough ends.1 p.positionSteps ends.2)
      ∧ Near p.config (modal.target line) (ends.2.getLast?.getD p.positionSteps) := by
  have hgeometry : ∃ arc, p.arcGeometry cw axes i j k plane units distance feed feedMode machineCoords
        = some arc ∧ 0 < arc.segments ∧ ∀ n, ∀ axis, axis ≠ aAxis →
        ({ arc with nextSeg := n } : ArcInProgress ℝ).segTargetMm axis
          = ((modal.arc line !cw).at ((n : ℝ) / arc.segments)).along axis :=
    arcGeometry_alike hoffset hdistance hunits hwords hi hj h
  obtain ⟨arc, hgeometry, hsegments, hsegTarget⟩ := hgeometry
  have hends : (⟨state, p, predefined⟩ : Interpreter ℝ).commandEnds
      (.arc cw axes i j k plane units distance feed feedMode machineCoords)
      = (false, arc.chordEnds p.config) := by
    unfold Interpreter.commandEnds
    dsimp only
    rw [hgeometry]
  have hcount : (0 : ℝ) < arc.segments := Nat.cast_pos.2 hsegments
  -- the positions of the machine, from its own on
  set g : ℕ → Axes Int32 := fun n =>
    if n = 0 then p.positionSteps else ({ arc with nextSeg := n }).segTarget p.config with hg
  have hcounted : ∀ n, n < arc.segments → ∀ axis, axis ≠ aAxis → ((g (n + 1) axis).toInt : ℤ)
      = roundf (((modal.arc line !cw).at (((n + 1 : ℕ) : ℝ) / arc.segments)).along axis
        * p.config.stepsPerMm axis) := by
    intro n hn axis haxis
    have hshare : ((n + 1 : ℕ) : ℝ) / arc.segments ≤ 1 :=
      (div_le_one hcount).2 (by exact_mod_cast hn)
    rw [hg]
    dsimp only
    rw [if_neg n.succ_ne_zero]
    exact near_segTarget (hsegTarget (n + 1))
      (fun axis haxis => h.fits _ (by positivity) hshare axis haxis) axis haxis
  have hnear : ∀ n, n ≤ arc.segments →
      Near p.config ((modal.arc line !cw).at ((n : ℝ) / arc.segments)) (g n) := by
    intro n hn
    cases n with
    | zero =>
      rw [Nat.cast_zero, zero_div, arc_at_zero]
      exact hpos
    | succ n =>
      intro axis haxis
      rw [hcounted n hn axis haxis]
      exact abs_roundf_sub_le _
  have hchords : arc.chordEnds p.config = (List.range' 0 arc.segments).map fun n => g (n + 1) := by
    unfold ArcInProgress.chordEnds
    rw [List.range_eq_range']
    rfl
  have hmoves : movesThrough false p.positionSteps (arc.chordEnds p.config)
      = (List.range' 0 arc.segments).map fun n => ⟨false, g n, g (n + 1)⟩ := by
    rw [hchords]
    exact movesThrough_eq false g arc.segments 0
  have hradius : 0 < (modal.arc line !cw).radius := by
    refine lt_of_lt_of_le ?_ h.radius
    unfold lengthEpsilonMm
    norm_num
  obtain ⟨hlong, hshort⟩ : f64Epsilon < |(modal.arc line !cw).sweep|
      ∧ |(modal.arc line !cw).sweep| ≤ tau :=
    arcSweep_bounds _ _ _ _ (h.turn.imp And.left And.right)
  obtain ⟨hcuts, hstarts, htargets, hclose⟩ := import_draws (arc_at_zero modal line !cw) hradius
    hlong hshort h.fine hpts rfl
  rw [hends]
  dsimp only
  refine ⟨rfl, ⟨hcuts, hstarts, htargets, hclose, ?_, ?_⟩, ?_⟩
  · rw [hmoves]
    intro b hb
    obtain ⟨n, -, rfl⟩ := List.mem_map.1 hb
    rfl
  · rw [hmoves, List.length_map, List.length_range', List.range_eq_range',
      List.forall₂_map_right_iff, List.forall₂_same]
    intro n hn
    have hlt : n < arc.segments := by
      obtain ⟨m, hm, rfl⟩ := List.mem_range'.1 hn
      omega
    exact ⟨hnear n hlt.le, hnear (n + 1) hlt⟩
  · -- the last chord ends at the end
    have hlast : (arc.chordEnds p.config).getLast? = some (g arc.segments) := by
      rw [hchords, ← List.range_eq_range', List.getLast?_map, List.getLast?_range,
        if_neg hsegments.ne', Option.map_some, Nat.sub_add_cancel hsegments]
    rw [hlast, Option.getD_some]
    intro axis haxis
    have hend := hcounted (arc.segments - 1) (by omega) axis haxis
    rw [Nat.sub_add_cancel hsegments, div_self hcount.ne'] at hend
    rw [hend]
    exact h.circle axis haxis

end Galdr.Import
