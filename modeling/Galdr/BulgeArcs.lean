import Galdr.Libm

/-!
# Arcs given by a bulge

A bulge is the tangent of a quarter of the angle that an arc sweeps from one
point to another, counter-clockwise where it is positive. In the complex plane
the arc turns its start about its centre: the centre lies on the normal of the
chord through its midpoint, and the whole turn takes the one end to the other
(`Bulge.rotate`). Reversed, the bulge changes sign and the points are the same.

The area that a curve sweeps about the origin is half the integral of
`x dy - y dx`. Around a closed curve it is the enclosed area, with the sign of
the way round.
-/

open Complex ComplexConjugate

namespace Bulge

/-- The angle the arc of a bulge sweeps. -/
noncomputable def turn (b : ℝ) : ℝ := 4 * Real.arctan b

theorem turn_neg (b : ℝ) : turn (-b) = -turn b := by
  unfold turn
  rw [Real.arctan_neg, mul_neg]

theorem turn_pos {b : ℝ} (h : 0 < b) : 0 < turn b ∧ turn b < 2 * Real.pi := by
  have hpos : 0 < Real.arctan b := Real.arctan_pos.2 h
  have hlt : Real.arctan b < Real.pi / 2 := Real.arctan_lt_pi_div_two b
  unfold turn
  constructor <;> linarith

theorem turn_of_neg {b : ℝ} (h : b < 0) : turn b < 0 ∧ -(2 * Real.pi) < turn b := by
  have hpos := turn_pos (neg_pos.2 h)
  rw [turn_neg] at hpos
  constructor <;> linarith

/-- The centre of the arc of a bulge. -/
noncomputable def center (P Q : ℂ) (b : ℝ) : ℂ :=
  (P + Q) / 2 + ((1 - b * b) / (4 * b) : ℝ) * (I * (Q - P))

/-- The centre is the same from the other end. -/
theorem center_swap (P Q : ℂ) (b : ℝ) : center Q P (-b) = center P Q b := by
  unfold center
  have hfactor : (1 - -b * -b) / (4 * -b) = -((1 - b * b) / (4 * b)) := by
    rw [neg_mul_neg, mul_neg, div_neg]
  rw [hfactor]
  push_cast
  ring

theorem one_sub_ne_zero (b : ℝ) : (1 - b * I : ℂ) ≠ 0 := by
  intro hzero
  have hre := congrArg re hzero
  simp at hre

theorem one_add_ne_zero (b : ℝ) : (1 + b * I : ℂ) ≠ 0 := by
  intro hzero
  have hre := congrArg re hzero
  simp at hre

/-- The whole turn, as a number. -/
theorem exp_turn (b : ℝ) : exp (turn b * I) = ((1 + b * I) / (1 - b * I)) ^ 2 := by
  have hne : (1 + b * I : ℂ) / (1 - b * I) ≠ 0 :=
    div_ne_zero (one_add_ne_zero b) (one_sub_ne_zero b)
  have hturn : (turn b * I : ℂ) = 2 * log ((1 + b * I) / (1 - b * I)) := by
    unfold turn
    push_cast
    unfold Complex.arctan
    linear_combination (-2 * log ((1 + b * I) / (1 - b * I))) * I_mul_I
  rw [hturn, two_mul, exp_add, exp_log hne, sq]

/-- The start, seen from the centre. -/
theorem sub_center {b : ℝ} (hb : b ≠ 0) (P Q : ℂ) :
    P - center P Q b = -((Q - P) * (I * (1 - b * I) ^ 2 / (4 * b))) := by
  have hb' : (b : ℂ) ≠ 0 := ofReal_ne_zero.2 hb
  unfold center
  push_cast
  field_simp
  linear_combination (P - Q) * (4 * b - 2 * b ^ 2 * I) * I_sq

/-- **The whole turn takes the start to the end.** -/
theorem rotate {b : ℝ} (hb : b ≠ 0) (P Q : ℂ) :
    Q - center P Q b = exp (turn b * I) * (P - center P Q b) := by
  have hend : Q - center P Q b = -((Q - P) * (I * (1 + b * I) ^ 2 / (4 * b))) := by
    have hswap := sub_center (neg_ne_zero.2 hb) Q P
    rw [center_swap] at hswap
    rw [hswap]
    push_cast
    ring
  have hne : (1 - I * b : ℂ) ≠ 0 := mul_comm (b : ℂ) I ▸ one_sub_ne_zero b
  rw [hend, sub_center hb, exp_turn]
  field_simp

/-- Both ends are on one circle about the centre. -/
theorem norm_sub_center {b : ℝ} (hb : b ≠ 0) (P Q : ℂ) :
    ‖Q - center P Q b‖ = ‖P - center P Q b‖ := by
  rw [rotate hb, norm_mul, norm_exp_ofReal_mul_I, one_mul]

/-! ## The points of the arc -/

/-- A point of the arc, or of the chord where there is no bulge. -/
noncomputable def point (P Q : ℂ) (b : ℝ) (t : ℝ) : ℂ :=
  if b = 0 then P + t * (Q - P)
  else center P Q b + exp (t * turn b * I) * (P - center P Q b)

theorem point_zero (P Q : ℂ) (b : ℝ) : point P Q b 0 = P := by
  unfold point
  split
  case isTrue => simp
  case isFalse => simp

theorem point_one (P Q : ℂ) (b : ℝ) : point P Q b 1 = Q := by
  unfold point
  split
  case isTrue => simp
  case isFalse hb =>
    rw [ofReal_one, one_mul, ← rotate hb]
    ring

/-- **The reversed arc has the same points**, the other way round. -/
theorem point_swap (P Q : ℂ) (b t : ℝ) : point Q P (-b) t = point P Q b (1 - t) := by
  unfold point
  by_cases hb : b = 0
  · rw [if_pos hb, if_pos (neg_eq_zero.2 hb)]
    push_cast
    ring
  · rw [if_neg hb, if_neg fun h => hb (neg_eq_zero.1 h), center_swap, rotate hb, ← mul_assoc,
      ← exp_add, turn_neg]
    congr 3
    push_cast
    ring

/-! ## The swept area -/

/-- The area that a curve sweeps about the origin. -/
noncomputable def swept (γ : ℝ → ℂ) : ℝ := (∫ t in (0 : ℝ)..1, (conj (γ t) * deriv γ t).im) / 2

theorem swept_line (P Q : ℂ) : swept (point P Q 0) = (conj P * Q).im / 2 := by
  have hderiv (t : ℝ) : HasDerivAt (point P Q 0) (Q - P) t := by
    have hline : point P Q 0 = fun t : ℝ => P + t * (Q - P) := by
      funext t
      exact if_pos rfl
    rw [hline]
    have h := ((hasDerivAt_id t).ofReal_comp.mul_const (Q - P)).const_add P
    simpa using h
  have hconst (t : ℝ) :
      (conj (point P Q 0 t) * deriv (point P Q 0) t).im = (conj P * Q).im := by
    rw [(hderiv t).deriv]
    unfold point
    rw [if_pos rfl]
    simp
    ring
  unfold swept
  simp only [hconst]
  simp

/-- The area of an arc: that of the triangle of its chord and the origin's share of the
centre, and the sector. -/
theorem swept_arc {b : ℝ} (hb : b ≠ 0) (P Q : ℂ) :
    swept (point P Q b)
      = ((conj (center P Q b) * (Q - P)).im + ‖P - center P Q b‖ ^ 2 * turn b) / 2 := by
  set C := center P Q b with hC
  have harc : point P Q b = fun t : ℝ => C + exp (t * (turn b * I)) * (P - C) := by
    funext t
    unfold point
    rw [if_neg hb, mul_assoc]
  have hderiv (t : ℝ) :
      HasDerivAt (point P Q b) (turn b * I * (exp (t * (turn b * I)) * (P - C))) t := by
    rw [harc]
    have hinner : HasDerivAt (fun t : ℝ => (t * (turn b * I) : ℂ)) (turn b * I) t := by
      simpa using (hasDerivAt_id t).ofReal_comp.mul_const (turn b * I : ℂ)
    have h := (hinner.cexp.mul_const (P - C)).const_add C
    refine h.congr_deriv ?_
    ring
  -- the part of the moving radius is constant, the part of the centre is a derivative
  have hsplit (t : ℝ) : (conj (point P Q b t) * deriv (point P Q b) t).im
      = (conj C * (turn b * I * (exp (t * (turn b * I)) * (P - C)))).im
        + ‖P - C‖ ^ 2 * turn b := by
    have hnorm : conj (exp (t * (turn b * I)) * (P - C)) * (exp (t * (turn b * I)) * (P - C))
        = ((‖P - C‖ ^ 2 : ℝ) : ℂ) := by
      rw [conj_mul', norm_mul, ← mul_assoc, ← ofReal_mul, norm_exp_ofReal_mul_I, one_mul]
      push_cast
      rfl
    have hsector : conj (exp (t * (turn b * I)) * (P - C))
        * (turn b * I * (exp (t * (turn b * I)) * (P - C))) = (‖P - C‖ ^ 2 * turn b : ℝ) * I := by
      rw [ofReal_mul]
      linear_combination (turn b * I) * hnorm
    rw [(hderiv t).deriv, harc]
    dsimp only
    rw [map_add, add_mul, hsector, add_im, im_ofReal_mul, I_im, mul_one]
  have hwhole (t : ℝ) : HasDerivAt
      (fun t => (conj C * point P Q b t).im + t * (‖P - C‖ ^ 2 * turn b))
      ((conj C * (turn b * I * (exp (t * (turn b * I)) * (P - C)))).im
        + ‖P - C‖ ^ 2 * turn b) t := by
    have hcenter := imCLM.hasFDerivAt.comp_hasDerivAt t ((hderiv t).const_mul (conj C))
    have hradius := (hasDerivAt_id t).mul_const (‖P - C‖ ^ 2 * turn b)
    rw [one_mul] at hradius
    exact hcenter.add hradius
  have hcontinuous : Continuous fun t : ℝ =>
      (conj C * (turn b * I * (exp (t * (turn b * I)) * (P - C)))).im + ‖P - C‖ ^ 2 * turn b := by
    fun_prop
  unfold swept
  simp only [hsplit]
  rw [intervalIntegral.integral_eq_sub_of_hasDerivAt (fun t _ => hwhole t)
    (hcontinuous.intervalIntegrable 0 1), point_zero, point_one, mul_sub, sub_im]
  ring

/-- **Reversed, an arc sweeps the opposite area.** -/
theorem swept_swap (P Q : ℂ) (b : ℝ) : swept (point Q P (-b)) = -swept (point P Q b) := by
  by_cases hb : b = 0
  · subst hb
    rw [neg_zero, swept_line, swept_line]
    simp only [mul_im, conj_re, conj_im]
    ring
  · rw [swept_arc hb, swept_arc (neg_ne_zero.2 hb), center_swap, turn_neg, norm_sub_center hb,
      ← neg_sub Q P, mul_neg, neg_im]
    ring

/-! ## The sweep between two radii -/

/-- The angle of a radius that was turned by less than half a turn. -/
theorem arg_conj_mul {r : ℂ} (hr : r ≠ 0) {θ : ℝ} (hθ : θ ∈ Set.Ioc (-Real.pi) Real.pi) :
    (conj r * (exp (θ * I) * r)).arg = θ := by
  have hfactor : conj r * (exp (θ * I) * r) = (‖r‖ ^ 2 : ℝ) * (cos θ + sin θ * I) := by
    rw [mul_left_comm, conj_mul', exp_mul_I, ofReal_pow, mul_comm]
  rw [hfactor]
  exact arg_mul_cos_add_sin_mul_I (pow_pos (norm_pos_iff.2 hr) 2) hθ

end Bulge
