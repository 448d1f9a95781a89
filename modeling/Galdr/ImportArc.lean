import Galdr.GcodeImport
import Galdr.LibmReal
import Galdr.PlannerCommands

/-!
# An arc in two programs

The machine and the import find the sweep of an arc in different ways: the one from the angle
between the two radii, the other from the difference of their angles. The two agree unless the
turn is so small that the import takes it for a whole one (`arcSweep_eq`). The points on the arc
of the import are dense enough for its tolerance, as long as it takes no more than 512 of them
(`arcSegmentCount_spec`).
-/

namespace Galdr.Import

/-! ## The sweep -/

theorem tau_pos : (0 : ℝ) < tau := Real.two_pi_pos

/-- The remainder differs by whole turns, and is less than one. -/
theorem remEuclid_spec (x : ℝ) :
    (∃ k : ℤ, remEuclid x tau = x - tau * k) ∧ 0 ≤ remEuclid x tau ∧ remEuclid x tau < tau := by
  refine ⟨⟨⌊x / tau⌋, rfl⟩, ?_, ?_⟩
  · have h := Int.floor_le (x / tau)
    rw [le_div_iff₀ tau_pos] at h
    unfold remEuclid
    linarith
  · have h := Int.lt_floor_add_one (x / tau)
    rw [div_lt_iff₀ tau_pos] at h
    unfold remEuclid
    linarith

/-- The radius as a complex number. -/
def ofPair (r : ℝ × ℝ) : ℂ := ⟨r.1, r.2⟩

theorem ofPair_ne_zero {r : ℝ × ℝ} (h : r ≠ 0) : ofPair r ≠ 0 := by
  intro hzero
  have hre := congrArg Complex.re hzero
  have him := congrArg Complex.im hzero
  exact h (Prod.ext hre him)

/-- The angle of the machine is the difference of the angles of the import, but for whole
turns. -/
theorem angle_sub {r0 r1 : ℝ × ℝ} (h0 : r0 ≠ 0) (h1 : r1 ≠ 0) :
    ∃ k : ℤ, (ofPair r1).arg - (ofPair r0).arg
      - atan2f (r0.1 * r1.2 - r0.2 * r1.1) (r0.1 * r1.1 + r0.2 * r1.2) = 2 * Real.pi * k := by
  have hne := ofPair_ne_zero h0
  have hangle : (atan2f (r0.1 * r1.2 - r0.2 * r1.1) (r0.1 * r1.1 + r0.2 * r1.2) : ℝ)
      = (ofPair r1 * (starRingEnd ℂ) (ofPair r0)).arg := by
    show Complex.arg ⟨_, _⟩ = _
    congr 1
    apply Complex.ext
    · simp only [ofPair, Complex.mul_re, Complex.conj_re, Complex.conj_im]
      ring
    · simp only [ofPair, Complex.mul_im, Complex.conj_re, Complex.conj_im]
      ring
  have hcoe : (((ofPair r1).arg - (ofPair r0).arg : ℝ) : Real.Angle)
      = ((atan2f (r0.1 * r1.2 - r0.2 * r1.1) (r0.1 * r1.1 + r0.2 * r1.2) : ℝ) : Real.Angle) := by
    rw [hangle, Complex.arg_mul_coe_angle (ofPair_ne_zero h1) ((map_ne_zero _).2 hne),
      Complex.arg_conj_coe_angle, Real.Angle.coe_sub, sub_eq_add_neg]
  exact Real.Angle.angle_eq_iff_two_pi_dvd_sub.1 hcoe

/-- **The two find the same sweep**, if the end is the start, or else the import can tell the turn
from none. -/
theorem arcSweep_eq {r0 r1 : ℝ × ℝ} (h0 : r0 ≠ 0) (h1 : r1 ≠ 0) {full : Bool}
    (hturn : full = true ∧ r1 = r0 ∨ full = false
      ∧ f64Epsilon < remEuclid (atan2f r1.2 r1.1 - atan2f r0.2 r0.1) tau) (ccw : Bool) :
    arcSweep (atan2f r0.2 r0.1) (atan2f r1.2 r1.1) ccw full = arcSweepAngle r0 r1 (!ccw) := by
  have htau : (tau : ℝ) = 2 * Real.pi := rfl
  have hpi : (Libm.pi : ℝ) = Real.pi := rfl
  unfold arcSweep arcSweepAngle
  dsimp only
  rcases hturn with ⟨rfl, rfl⟩ | ⟨rfl, hlong⟩
  · -- a whole turn
    have hangle : (atan2f (r1.1 * r1.2 - r1.2 * r1.1) (r1.1 * r1.1 + r1.2 * r1.2) : ℝ) = 0 := by
      have hcross : r1.1 * r1.2 - r1.2 * r1.1 = 0 := by ring
      rw [hcross]
      exact Complex.arg_ofReal_of_nonneg (add_nonneg (mul_self_nonneg _) (mul_self_nonneg _))
    rw [if_pos rfl, hangle]
    cases ccw with
    | true => rw [if_pos rfl, Bool.not_true, if_neg Bool.false_ne_true, if_pos le_rfl, zero_add]; rfl
    | false => rw [if_neg Bool.false_ne_true, Bool.not_false, if_pos rfl, if_pos le_rfl, zero_sub]; rfl
  · rw [if_neg Bool.false_ne_true]
    obtain ⟨k, hk⟩ := angle_sub h0 h1
    obtain ⟨⟨m, hm⟩, -, hlt⟩ := remEuclid_spec (atan2f r1.2 r1.1 - atan2f r0.2 r0.1)
    have heps : (0 : ℝ) < f64Epsilon := by
      unfold f64Epsilon
      norm_num
    set delta := remEuclid (atan2f r1.2 r1.1 - atan2f r0.2 r0.1) tau with hdelta
    set angle : ℝ := atan2f (r0.1 * r1.2 - r0.2 * r1.1) (r0.1 * r1.1 + r0.2 * r1.2) with hangle
    have hpos := Real.pi_pos
    have hlow : -Real.pi < angle := Complex.neg_pi_lt_arg _
    have hhigh : angle ≤ Real.pi := Complex.arg_le_pi _
    have hsub : delta = angle + 2 * Real.pi * ((k - m : ℤ) : ℝ) := by
      have hk' : atan2f r1.2 r1.1 - atan2f r0.2 r0.1 - angle = 2 * Real.pi * k := hk
      push_cast
      rw [hm, htau]
      linarith
    -- the angle is the turn, or the turn less a whole one
    have hturns : k - m = 0 ∨ k - m = 1 := by
      have hneg : ((-1 : ℤ) : ℝ) < ((k - m : ℤ) : ℝ) := by
        push_cast at hsub ⊢
        nlinarith
      have hlt2 : ((k - m : ℤ) : ℝ) < ((2 : ℤ) : ℝ) := by
        push_cast at hsub ⊢
        rw [htau] at hlt
        nlinarith
      have h1 := Int.cast_lt.1 hneg
      have h2 := Int.cast_lt.1 hlt2
      omega
    rw [if_neg (not_le.2 hlong), if_neg (not_le.2 hlong), htau, hpi]
    rcases hturns with hzero | hone
    · rw [hzero, Int.cast_zero, mul_zero, add_zero] at hsub
      have hangle0 : 0 < angle := hsub ▸ heps.trans hlong
      cases ccw with
      | true =>
        rw [if_pos rfl, Bool.not_true, if_neg Bool.false_ne_true, if_neg (not_le.2 hangle0), hsub]
      | false => rw [if_neg Bool.false_ne_true, Bool.not_false, if_pos rfl, if_pos hangle0.le, hsub]
    · rw [hone, Int.cast_one, mul_one] at hsub
      have hangle0 : angle < 0 := by
        rw [htau] at hlt
        linarith
      cases ccw with
      | true =>
        rw [if_pos rfl, Bool.not_true, if_neg Bool.false_ne_true, if_pos hangle0.le, hsub]
      | false =>
        rw [if_neg Bool.false_ne_true, Bool.not_false, if_pos rfl, if_neg (not_le.2 hangle0), hsub,
          add_sub_cancel_right]

/-- Behind the sweep of the machine is the angle of the end. -/
theorem sweep_ends {r0 r1 : ℝ × ℝ} (h0 : r0 ≠ 0) (h1 : r1 ≠ 0) (cw : Bool) :
    ∃ k : ℤ, atan2f r0.2 r0.1 + arcSweepAngle r0 r1 cw = atan2f r1.2 r1.1 + k * (2 * Real.pi) := by
  obtain ⟨k, hk⟩ := angle_sub h0 h1
  have hpi : (Libm.pi : ℝ) = Real.pi := rfl
  have hk' : atan2f r1.2 r1.1 - atan2f r0.2 r0.1
      - atan2f (r0.1 * r1.2 - r0.2 * r1.1) (r0.1 * r1.1 + r0.2 * r1.2) = 2 * Real.pi * k := hk
  unfold arcSweepAngle
  dsimp only
  rw [hpi]
  split
  · split
    · exact ⟨-k - 1, by push_cast; linarith⟩
    · exact ⟨-k, by push_cast; linarith⟩
  · split
    · exact ⟨-k + 1, by push_cast; linarith⟩
    · exact ⟨-k, by push_cast; linarith⟩

/-! ## The points of an arc -/

/-- An arc about the Z axis, with its share of the way in Z. -/
structure HelicalArc where
  /-- The centre. -/
  center : ℝ × ℝ
  /-- The radius. -/
  radius : ℝ
  /-- The angle of the start. -/
  thetaStart : ℝ
  /-- The signed angle from the start to the end. -/
  sweep : ℝ
  /-- Z at the start. -/
  zStart : ℝ
  /-- The way in Z. -/
  zDelta : ℝ

/-- The point of an arc at a share of its way. -/
noncomputable def HelicalArc.at (arc : HelicalArc) (t : ℝ) : Point3 ℝ where
  x := arc.center.1 + arc.radius * Real.cos (arc.thetaStart + arc.sweep * t)
  y := arc.center.2 + arc.radius * Real.sin (arc.thetaStart + arc.sweep * t)
  z := arc.zStart + arc.zDelta * t

/-- A point of an arc is close to a chord: there is a point of the chord within the tolerance of
it, in the plane. -/
def HelicalArc.NearChord (arc : HelicalArc) (a b t tolerance : ℝ) : Prop :=
  ∃ u, 0 ≤ u ∧ u ≤ 1 ∧
    ((1 - u) * (arc.at a).x + u * (arc.at b).x - (arc.at t).x) ^ 2
      + ((1 - u) * (arc.at a).y + u * (arc.at b).y - (arc.at t).y) ^ 2 ≤ tolerance ^ 2

/-- A chord is as close to its arc as it is at its middle. -/
theorem HelicalArc.nearChord {arc : HelicalArc} {mid half phi : ℝ} (hr : 0 ≤ arc.radius)
    (hphi : |arc.sweep * phi| ≤ |arc.sweep * half|) (hhalf : |arc.sweep * half| ≤ Real.pi / 2) :
    arc.NearChord (mid - half) (mid + half) (mid + phi)
      (arc.radius * (1 - Real.cos (arc.sweep * half))) := by
  have hpos := Real.pi_pos
  set m := arc.thetaStart + arc.sweep * mid with hm
  set h := arc.sweep * half with hh
  set f := arc.sweep * phi with hf
  have ha : arc.thetaStart + arc.sweep * (mid - half) = m - h := by rw [hm, hh]; ring
  have hb : arc.thetaStart + arc.sweep * (mid + half) = m + h := by rw [hm, hh]; ring
  have ht : arc.thetaStart + arc.sweep * (mid + phi) = m + f := by rw [hm, hf]; ring
  clear_value m h f
  -- the way from the chord to the arc, along the radius of the middle
  have hcos : Real.cos h ≤ Real.cos f := by
    rw [← Real.cos_abs h, ← Real.cos_abs f]
    exact Real.cos_le_cos_of_nonneg_of_le_pi (abs_nonneg f) (by linarith) hphi
  have hsin : |Real.sin f| ≤ |Real.sin h| := by
    rw [Real.abs_sin_eq_sin_abs_of_abs_le_pi (by linarith),
      Real.abs_sin_eq_sin_abs_of_abs_le_pi (by linarith)]
    have hneg := abs_nonneg f
    exact Real.sin_le_sin_of_le_of_le_pi_div_two (by linarith) hhalf hphi
  obtain ⟨u, hu0, hu1, hu⟩ : ∃ u, 0 ≤ u ∧ u ≤ 1 ∧ (2 * u - 1) * Real.sin h = Real.sin f := by
    by_cases hzero : Real.sin h = 0
    · refine ⟨0, le_rfl, zero_le_one, ?_⟩
      rw [hzero, abs_zero] at hsin
      rw [hzero, mul_zero, abs_eq_zero.1 (le_antisymm hsin (abs_nonneg _))]
    · have hratio : |Real.sin f / Real.sin h| ≤ 1 := by
        rw [abs_div]
        exact div_le_one_of_le₀ hsin (abs_nonneg _)
      obtain ⟨hlow, hhigh⟩ := abs_le.1 hratio
      refine ⟨1 / 2 + Real.sin f / Real.sin h / 2, by linarith, by linarith, ?_⟩
      field_simp
      ring
  refine ⟨u, hu0, hu1, ?_⟩
  unfold HelicalArc.at
  dsimp only
  rw [ha, hb, ht, Real.cos_sub, Real.cos_add, Real.cos_add, Real.sin_sub, Real.sin_add,
    Real.sin_add]
  have hx : (1 - u) * (arc.center.1 + arc.radius
        * (Real.cos m * Real.cos h + Real.sin m * Real.sin h))
      + u * (arc.center.1 + arc.radius * (Real.cos m * Real.cos h - Real.sin m * Real.sin h))
      - (arc.center.1 + arc.radius * (Real.cos m * Real.cos f - Real.sin m * Real.sin f))
      = -(arc.radius * Real.cos m * (Real.cos f - Real.cos h)) := by
    rw [← hu]
    ring
  have hy : (1 - u) * (arc.center.2 + arc.radius
        * (Real.sin m * Real.cos h - Real.cos m * Real.sin h))
      + u * (arc.center.2 + arc.radius * (Real.sin m * Real.cos h + Real.cos m * Real.sin h))
      - (arc.center.2 + arc.radius * (Real.sin m * Real.cos f + Real.cos m * Real.sin f))
      = -(arc.radius * Real.sin m * (Real.cos f - Real.cos h)) := by
    rw [← hu]
    ring
  rw [hx, hy]
  calc (-(arc.radius * Real.cos m * (Real.cos f - Real.cos h))) ^ 2
        + (-(arc.radius * Real.sin m * (Real.cos f - Real.cos h))) ^ 2
      = (arc.radius * (Real.cos f - Real.cos h)) ^ 2 * (Real.sin m ^ 2 + Real.cos m ^ 2) := by ring
    _ = (arc.radius * (Real.cos f - Real.cos h)) ^ 2 := by rw [Real.sin_sq_add_cos_sq, mul_one]
    _ ≤ (arc.radius * (1 - Real.cos h)) ^ 2 := by
      refine pow_le_pow_left₀ (mul_nonneg hr (sub_nonneg.2 hcos)) ?_ 2
      exact mul_le_mul_of_nonneg_left (sub_le_sub_right (Real.cos_le_one f) _) hr

/-- **The import takes enough chords**: at least eight, and so many that the middle of none is
farther from the arc than the tolerance, unless 512 are too few. -/
theorem arcSegmentCount_spec {radius sweepAbs : ℝ} (hr : 0 < radius) (hsweep : 0 < sweepAbs)
    (hfine : radius * (1 - Real.cos (sweepAbs / (2 * 512))) ≤ chordToleranceMm) :
    8 ≤ arcSegmentCount radius sweepAbs
      ∧ radius * (1 - Real.cos (sweepAbs / (2 * (arcSegmentCount radius sweepAbs : ℕ))))
        ≤ chordToleranceMm := by
  have hmin : min chordToleranceMm (radius * (1 / 2)) ≤ (chordToleranceMm : ℝ) := min_le_left _ _
  have htol : 0 < min (chordToleranceMm : ℝ) (radius * (1 / 2)) :=
    lt_min (by unfold chordToleranceMm; norm_num) (by linarith)
  have hhalf : min chordToleranceMm (radius * (1 / 2)) ≤ radius * (1 / 2) := min_le_right _ _
  have hacos : (Libm.acosf : ℝ → ℝ) = Real.arccos := rfl
  unfold arcSegmentCount
  rw [if_neg (by push Not; exact ⟨hr, hsweep⟩)]
  dsimp only
  generalize min chordToleranceMm (radius * (1 / 2)) = tol at *
  have hratio : tol / radius ≤ 1 / 2 := by
    rw [div_le_iff₀ hr]
    linarith
  have hratio0 : 0 < tol / radius := div_pos htol hr
  rw [min_eq_left (by linarith : 1 - tol / radius ≤ 1),
    max_eq_right (by linarith : -1 ≤ 1 - tol / radius), hacos]
  split
  · exact ⟨by norm_num, by push_cast; exact hfine⟩
  rename_i hstep
  refine ⟨le_max_left _ _, ?_⟩
  by_cases hcut : 512 ≤ ⌈sweepAbs / (2 * Real.arccos (1 - tol / radius))⌉.toNat
  · rw [min_eq_right hcut, max_eq_right (by norm_num)]
    push_cast
    exact hfine
  · -- enough for the tolerance
    rw [min_eq_left (not_le.1 hcut).le]
    set n := max 8 ⌈sweepAbs / (2 * Real.arccos (1 - tol / radius))⌉.toNat with hn
    have hstep0 : 0 < 2 * Real.arccos (1 - tol / radius) := by
      refine lt_of_lt_of_le ?_ (not_le.1 hstep).le
      unfold f64Epsilon
      norm_num
    have hn8 : (8 : ℝ) ≤ n := by exact_mod_cast le_max_left _ _
    have hceil : sweepAbs / (2 * Real.arccos (1 - tol / radius)) ≤ n := by
      have h1 : (⌈sweepAbs / (2 * Real.arccos (1 - tol / radius))⌉ : ℝ)
          ≤ (⌈sweepAbs / (2 * Real.arccos (1 - tol / radius))⌉.toNat : ℝ) := by
        exact_mod_cast Int.self_le_toNat _
      have h2 : (⌈sweepAbs / (2 * Real.arccos (1 - tol / radius))⌉.toNat : ℝ) ≤ n := by
        exact_mod_cast le_max_right _ _
      exact (Int.le_ceil _).trans (h1.trans h2)
    have hangle : sweepAbs / (2 * n) ≤ Real.arccos (1 - tol / radius) := by
      rw [div_le_iff₀ (by linarith)]
      rw [div_le_iff₀ hstep0] at hceil
      linarith
    have hcos : 1 - tol / radius ≤ Real.cos (sweepAbs / (2 * n)) := by
      rw [← Real.cos_arccos (by linarith : -1 ≤ 1 - tol / radius) (by linarith)]
      exact Real.cos_le_cos_of_nonneg_of_le_pi (by positivity) (Real.arccos_le_pi _) hangle
    calc radius * (1 - Real.cos (sweepAbs / (2 * n))) ≤ radius * (tol / radius) :=
          mul_le_mul_of_nonneg_left (by linarith) hr.le
      _ = tol := mul_div_cancel₀ tol hr.ne'
      _ ≤ chordToleranceMm := hmin

end Galdr.Import
