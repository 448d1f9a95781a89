import Galdr.Flattening

/-!
# Flattened curves

A bulge is flattened as the arc that it is, and a cubic curve piece by piece. A piece is taken
for its chord when its control points are close to the *line* of the chord. They may be close to
the line and lie far beyond the ends of the chord, and then the piece does, too. A curve is
within the tolerance where no piece does (`near_subdivideCubic`).
-/

namespace Galdr.Import.Flatten

open ArcChords

/-! ## Bulges -/

theorem hypot_eq_norm (x y : ℝ) : hypot x y = ‖(⟨x, y⟩ : ℂ)‖ := by
  rw [Complex.norm_def, Complex.normSq_mk]
  rfl

/-- The radius of the arc of a bulge. -/
theorem norm_sub_center {b : ℝ} (hb : b ≠ 0) (P Q : ℂ) :
    ‖P - Bulge.center P Q b‖ = ‖Q - P‖ * (1 + b ^ 2) / (4 * |b|) := by
  have hfactor : ‖(1 - b * Complex.I : ℂ)‖ ^ 2 = 1 + b ^ 2 := by
    rw [Complex.sq_norm, Complex.normSq_apply]
    simp
    ring
  rw [Bulge.sub_center hb, norm_neg, norm_mul, norm_div, norm_mul, norm_pow, Complex.norm_I,
    one_mul, hfactor, norm_mul, Complex.norm_real, Real.norm_eq_abs]
  norm_num
  ring

/-- The arc of a bulge as one about its centre. -/
theorem point_eq_point {b : ℝ} (hb : b ≠ 0) (P Q : ℂ) (t : ℝ) :
    Bulge.point P Q b t = ArcChords.point (Bulge.center P Q b) ‖P - Bulge.center P Q b‖
      (P - Bulge.center P Q b).arg (Bulge.turn b) t := by
  have hturned : Complex.exp (t * Bulge.turn b * Complex.I) * (P - Bulge.center P Q b)
      = ‖P - Bulge.center P Q b‖
        * Complex.exp (((P - Bulge.center P Q b).arg + Bulge.turn b * t : ℝ) * Complex.I) := by
    conv_lhs => rw [← Complex.norm_mul_exp_arg_mul_I (P - Bulge.center P Q b)]
    rw [mul_left_comm, ← Complex.exp_add]
    congr 2
    push_cast
    ring
  unfold Bulge.point ArcChords.point
  rw [if_neg hb, hturned]

theorem abs_turn_le (b : ℝ) : |Bulge.turn b| ≤ 2 * Real.pi := by
  have hlow := Real.neg_pi_div_two_lt_arctan b
  have hhigh := Real.arctan_lt_pi_div_two b
  unfold Bulge.turn
  rw [abs_le]
  constructor <;> linarith

/-- The height of an arc over its chord, by its bulge. -/
theorem height_bulge {b : ℝ} (hb : b ≠ 0) (P Q : ℂ) :
    ‖P - Bulge.center P Q b‖ * (1 - Real.cos (|Bulge.turn b| / 2)) = |b| * ‖Q - P‖ / 2 := by
  have hcos : Real.cos (|Bulge.turn b| / 2) = 2 * (1 / (1 + b ^ 2)) - 1 := by
    have hhalf : |Bulge.turn b| / 2 = |2 * Real.arctan b| := by
      unfold Bulge.turn
      rw [abs_mul, abs_mul]
      norm_num
      ring
    rw [hhalf, Real.cos_abs, Real.cos_two_mul, Real.cos_sq_arctan]
  have hpos : 1 + b ^ 2 ≠ 0 := by positivity
  have habs : |b| ≠ 0 := abs_ne_zero.2 hb
  have hsq : b ^ 2 = |b| ^ 2 := (sq_abs b).symm
  rw [norm_sub_center hb, hcos]
  rw [hsq] at hpos ⊢
  field_simp
  ring

theorem abs_turn (b : ℝ) : |Bulge.turn b| = 4 * Real.arctan |b| := by
  unfold Bulge.turn
  rw [abs_mul, abs_of_pos (by norm_num : (0 : ℝ) < 4)]
  by_cases hsign : 0 ≤ b
  · rw [abs_of_nonneg hsign, abs_of_nonneg (Real.arctan_nonneg.2 hsign)]
  · have hneg : b < 0 := not_le.1 hsign
    rw [abs_of_neg hneg, Real.arctan_neg, abs_of_neg (Real.arctan_lt_zero.2 hneg)]

/-- A bulge that is an arc turns by more than next to nothing. -/
theorem lt_abs_turn {b : ℝ} (hb : ¬|b| < flatEpsilon) : f64Epsilon < |Bulge.turn b| := by
  by_contra hnot
  rw [abs_turn] at hnot
  have hsmall : Real.arctan |b| ≤ 1 / 10 ^ 13 := by
    have hepsilon : (f64Epsilon : ℝ) = 1 / 4503599627370496 := rfl
    rw [hepsilon] at hnot
    linarith [not_lt.1 hnot]
  have hnonneg : 0 ≤ Real.arctan |b| := Real.arctan_nonneg.2 (abs_nonneg b)
  have hcos := Real.one_sub_sq_div_two_le_cos (x := Real.arctan |b|)
  have hsin := Real.sin_le hnonneg
  have htan := Real.tan_arctan |b|
  have hcospos := Real.cos_arctan_pos |b|
  rw [Real.tan_eq_sin_div_cos, div_eq_iff hcospos.ne'] at htan
  have hlarge : (1 / 10 ^ 12 : ℝ) ≤ |b| := not_lt.1 hb
  have hcoslarge : 1 / 2 ≤ Real.cos (Real.arctan |b|) := by nlinarith
  nlinarith

/-- What a bulge is flattened to. -/
theorem flattenBulge_eq {x0 y0 x1 y1 b : ℝ} (hb : ¬|b| < flatEpsilon)
    (hchord : ¬hypot (x1 - x0) (y1 - y0) < flatEpsilon) :
    b ≠ 0 ∧ ∃ cx cy, (⟨cx, cy⟩ : ℂ) = Bulge.center ⟨x0, y0⟩ ⟨x1, y1⟩ b
      ∧ flattenBulge x0 y0 x1 y1 b
        = flattenArc cx cy ‖(⟨x0, y0⟩ : ℂ) - ⟨cx, cy⟩‖ ((⟨x0, y0⟩ : ℂ) - ⟨cx, cy⟩).arg
          (Bulge.turn b) := by
  have hne : b ≠ 0 := by
    rintro rfl
    rw [abs_zero] at hb
    exact hb (by unfold flatEpsilon; positivity)
  have hatan : (atan2f b 1 : ℝ) = Real.arctan b := by
    have harg : |(⟨1, b⟩ : ℂ).arg| < Real.pi / 2 :=
      Complex.abs_arg_lt_pi_div_two_iff.2 (Or.inl one_pos)
    have htan : Real.tan (⟨1, b⟩ : ℂ).arg = b := (Complex.tan_arg _).trans (div_one b)
    have h := Real.arctan_tan (neg_lt_of_abs_lt harg) (lt_of_abs_lt harg)
    rw [htan] at h
    exact h.symm
  refine ⟨hne, (x0 + x1) / 2 + (1 - b * b) / (4 * b) * -(y1 - y0),
    (y0 + y1) / 2 + (1 - b * b) / (4 * b) * (x1 - x0), ?_,
    (if_neg (not_or.2 ⟨hb, hchord⟩)).trans ?_⟩
  · unfold Bulge.center
    apply Complex.ext
    · simp only [Complex.add_re, Complex.div_ofNat_re, Complex.re_ofReal_mul, Complex.I_mul_re,
        Complex.sub_im]
    · simp only [Complex.add_im, Complex.div_ofNat_im, Complex.im_ofReal_mul, Complex.I_mul_im,
        Complex.sub_re]
  · rw [hatan, hypot_eq_norm, ← norm_neg (⟨x0, y0⟩ - _ : ℂ)]
    congr 2
    apply Complex.ext
    · exact (neg_sub _ _).symm
    · exact (neg_sub _ _).symm

/-- A bulge that counts as straight is a single chord. -/
theorem flattenBulge_straight {x0 y0 x1 y1 b : ℝ}
    (h : |b| < flatEpsilon ∨ hypot (x1 - x0) (y1 - y0) < flatEpsilon) :
    flattenBulge x0 y0 x1 y1 b = [(x1, y1)] := if_pos h

theorem near_chord_bulge_iff {b : ℝ} {P Q : ℂ} :
    (∀ t ∈ Set.Icc (0 : ℝ) 1, Near chordToleranceMm [P, Q] (Bulge.point P Q b t))
      ↔ |b| * ‖Q - P‖ / 2 ≤ chordToleranceMm := by
  by_cases hb : b = 0
  · subst hb
    rw [abs_zero, zero_mul, zero_div]
    have htol : (0 : ℝ) ≤ chordToleranceMm := by
      unfold chordToleranceMm
      norm_num
    refine iff_of_true (fun t ht => near_pair_iff.2 ⟨t, ht, ?_⟩) htol
    have hsame : Bulge.point P Q 0 t = between P Q t := by
      unfold Bulge.point between
      rw [if_pos rfl]
      push_cast
      ring
    rw [hsame, sub_self, norm_zero]
    exact htol
  · have hpath : [P, Q] = ArcChords.path (Bulge.center P Q b) ‖P - Bulge.center P Q b‖
        (P - Bulge.center P Q b).arg (Bulge.turn b) 1 := by
      show [P, Q] = [ArcChords.point _ _ _ _ _, ArcChords.point _ _ _ _ _]
      rw [← point_eq_point hb, ← point_eq_point hb, Nat.cast_zero, Nat.cast_one, zero_div, div_one,
        Bulge.point_zero, Bulge.point_one]
    simp only [point_eq_point hb]
    rw [hpath, near_path_iff Nat.one_pos (abs_turn_le b), Nat.cast_one, mul_one,
      abs_of_nonneg (norm_nonneg _), height_bulge hb]

/-- **A flattened bulge is within the tolerance exactly where its chords are fine enough.** -/
theorem near_flattenBulge_iff {x0 y0 x1 y1 b : ℝ} :
    (∀ t ∈ Set.Icc (0 : ℝ) 1, Near chordToleranceMm
      (⟨x0, y0⟩ :: (flattenBulge x0 y0 x1 y1 b).map place)
      (Bulge.point ⟨x0, y0⟩ ⟨x1, y1⟩ b t)) ↔ BulgeFine x0 y0 x1 y1 b := by
  have hchord : hypot (x1 - x0) (y1 - y0) = ‖(⟨x1, y1⟩ : ℂ) - ⟨x0, y0⟩‖ := hypot_eq_norm _ _
  have hsqrt : Real.sqrt ((x1 - x0) * (x1 - x0) + (y1 - y0) * (y1 - y0))
      = hypot (x1 - x0) (y1 - y0) := rfl
  unfold BulgeFine
  dsimp only
  rw [hsqrt]
  by_cases hstraight : |b| < flatEpsilon ∨ hypot (x1 - x0) (y1 - y0) < flatEpsilon
  · rw [if_pos hstraight, flattenBulge_straight hstraight, hchord]
    exact near_chord_bulge_iff
  · obtain ⟨hb, hlong⟩ := not_or.1 hstraight
    obtain ⟨hne, cx, cy, hcenter, hflat⟩ := flattenBulge_eq hb hlong
    have hstart : (⟨x0, y0⟩ : ℂ) = ArcChords.point ⟨cx, cy⟩ ‖(⟨x0, y0⟩ : ℂ) - ⟨cx, cy⟩‖
        ((⟨x0, y0⟩ : ℂ) - ⟨cx, cy⟩).arg (Bulge.turn b) 0 := by
      rw [hcenter, ← point_eq_point hne, Bulge.point_zero]
    have hradius : 0 < ‖(⟨x0, y0⟩ : ℂ) - ⟨cx, cy⟩‖ := by
      have hpos : (0 : ℝ) < flatEpsilon := by
        unfold flatEpsilon
        positivity
      have hlength := hpos.trans_le (not_lt.1 hlong)
      rw [hcenter, norm_sub_center hne, ← hchord]
      positivity
    have hturning : ¬(‖(⟨x0, y0⟩ : ℂ) - ⟨cx, cy⟩‖ ≤ 0 ∨ |Bulge.turn b| ≤ f64Epsilon) :=
      not_or.2 ⟨not_le.2 hradius, not_le.2 (lt_abs_turn hb)⟩
    have habs : |Bulge.turn b| = 4 * Real.arctan |b| := abs_turn b
    have harc := @near_flattenArc_iff cx cy ‖(⟨x0, y0⟩ : ℂ) - ⟨cx, cy⟩‖
      ((⟨x0, y0⟩ : ℂ) - ⟨cx, cy⟩).arg (Bulge.turn b) (abs_turn_le b)
    unfold ArcFine at harc
    rw [if_neg hturning, ← hstart, ← hflat, habs] at harc
    rw [if_neg hstraight, hchord, ← norm_sub_center hne, ← hcenter, ← harc]
    refine forall₂_congr fun t _ => ?_
    rw [point_eq_point hne, ← hcenter]

/-- It ends at the end of the segment. -/
theorem getLast_flattenBulge (x0 y0 x1 y1 b : ℝ) :
    ((flattenBulge x0 y0 x1 y1 b).map place).getLast? = some ⟨x1, y1⟩ := by
  by_cases hstraight : |b| < flatEpsilon ∨ hypot (x1 - x0) (y1 - y0) < flatEpsilon
  · rw [flattenBulge_straight hstraight]
    rfl
  · obtain ⟨hb, hlong⟩ := not_or.1 hstraight
    obtain ⟨hne, cx, cy, hcenter, hflat⟩ := flattenBulge_eq hb hlong
    rw [hflat, getLast_flattenArc, hcenter, ← point_eq_point hne, Bulge.point_one]

theorem length_flattenBulge (x0 y0 x1 y1 b : ℝ) :
    (flattenBulge x0 y0 x1 y1 b).length ≤ 512 := by
  by_cases hstraight : |b| < flatEpsilon ∨ hypot (x1 - x0) (y1 - y0) < flatEpsilon
  · rw [flattenBulge_straight hstraight]
    exact Nat.one_le_iff_ne_zero.2 (by norm_num)
  · obtain ⟨hb, hlong⟩ := not_or.1 hstraight
    obtain ⟨-, cx, cy, -, hflat⟩ := flattenBulge_eq hb hlong
    rw [hflat]
    exact length_flattenArc _ _ _ _ _

/-! ## Cubic and quadratic curves -/

/-- A cubic curve. -/
def cubic (p0 c1 c2 p1 : ℝ × ℝ) : Cubic := ⟨place p0, place c1, place c2, place p1⟩

/-- A quadratic curve. -/
noncomputable def quadraticPoint (p0 c p1 : ℝ × ℝ) (t : ℝ) : ℂ :=
  ((1 - t) ^ 2 : ℝ) * place p0 + (2 * t * (1 - t) : ℝ) * place c + (t ^ 2 : ℝ) * place p1

theorem place_mid (a b : ℝ × ℝ) : place (mid a b) = (place a + place b) / 2 := by
  apply Complex.ext
  · simp only [place, mid, Complex.div_ofNat_re, Complex.add_re]
  · simp only [place, mid, Complex.div_ofNat_im, Complex.add_im]

/-- Both control points are within the tolerance of the chord, between its ends. -/
def Hugs (p0 c1 c2 p1 : ℝ × ℝ) : Prop :=
  NearChord chordToleranceMm (place p0) (place p1) (place c1)
    ∧ NearChord chordToleranceMm (place p0) (place p1) (place c2)

/-- **Where a curve is close enough to its chords**: every piece that is not halved any more
hugs its chord. No piece is flat that reaches beyond the ends of its chord, and none is left
that is not flat. -/
def Settles : ℕ → ℝ × ℝ → ℝ × ℝ → ℝ × ℝ → ℝ × ℝ → Prop
  | 0, p0, c1, c2, p1 => Hugs p0 c1 c2 p1
  | left + 1, p0, c1, c2, p1 =>
    if cubicIsFlat p0 c1 c2 p1 then Hugs p0 c1 c2 p1
    else
      let p01 := mid p0 c1
      let p12 := mid c1 c2
      let p23 := mid c2 p1
      let p012 := mid p01 p12
      let p123 := mid p12 p23
      let m := mid p012 p123
      Settles left p0 p01 p012 m ∧ Settles left m p123 p23 p1

/-- A piece that hugs its chord is near it. -/
theorem Hugs.near {p0 c1 c2 p1 : ℝ × ℝ} (h : Hugs p0 c1 c2 p1) {t : ℝ}
    (ht : t ∈ Set.Icc (0 : ℝ) 1) :
    Near chordToleranceMm [place p0, place p1] ((cubic p0 c1 c2 p1).point t) :=
  near_pair_iff.2 (@Cubic.nearChord_point (cubic p0 c1 c2 p1) _ h.1 h.2 t ht)

/-- **A curve whose pieces settle is near its chords.** -/
theorem near_subdivideCubic {left : ℕ} {p0 c1 c2 p1 : ℝ × ℝ} (h : Settles left p0 c1 c2 p1)
    {t : ℝ} (ht : t ∈ Set.Icc (0 : ℝ) 1) :
    Near chordToleranceMm
      (place p0 :: ((subdivideCubic left p0 c1 c2 p1).map place ++ [place p1]))
      ((cubic p0 c1 c2 p1).point t) := by
  induction left generalizing p0 c1 c2 p1 t with
  | zero => exact h.near ht
  | succ left ih =>
    unfold Settles at h
    unfold subdivideCubic
    by_cases hflat : cubicIsFlat p0 c1 c2 p1 = true
    · rw [if_pos hflat] at h ⊢
      exact h.near ht
    · rw [if_neg hflat] at h ⊢
      obtain ⟨hleft, hright⟩ := h
      dsimp only at hleft hright ⊢
      rw [List.map_append, List.map_cons, List.append_assoc, List.cons_append]
      set m := mid (mid (mid p0 c1) (mid c1 c2)) (mid (mid c1 c2) (mid c2 p1)) with hm
      -- each half is a curve of its own, and its path a part of the whole
      have hfirst : cubic p0 (mid p0 c1) (mid (mid p0 c1) (mid c1 c2)) m
          = (cubic p0 c1 c2 p1).left := by
        unfold cubic Cubic.left
        rw [hm]
        simp only [place_mid]
      have hsecond : cubic m (mid (mid c1 c2) (mid c2 p1)) (mid c2 p1) p1
          = (cubic p0 c1 c2 p1).right := by
        unfold cubic Cubic.right Cubic.left
        rw [hm]
        simp only [place_mid]
      by_cases hhalf : t ≤ 1 / 2
      · have hnear := ih hleft (t := 2 * t) ⟨by linarith [ht.1], by linarith⟩
        rw [hfirst, Cubic.point_left, mul_div_cancel_left₀ t two_ne_zero] at hnear
        refine hnear.mono ⟨[], (subdivideCubic left m (mid (mid c1 c2) (mid c2 p1)) (mid c2 p1)
          p1).map place ++ [place p1], ?_⟩
        rw [List.nil_append, List.cons_append, List.append_assoc]
        rfl
      · have hnear := ih hright (t := 2 * t - 1) ⟨by linarith, by linarith [ht.2]⟩
        rw [hsecond, Cubic.point_right, add_sub_cancel, mul_div_cancel_left₀ t two_ne_zero] at hnear
        exact hnear.mono ⟨place p0 :: (subdivideCubic left p0 (mid p0 c1)
          (mid (mid p0 c1) (mid c1 c2)) m).map place, [], List.append_nil _⟩

/-- The number of points between the ends. -/
theorem length_subdivideCubic {K : Type} [Field K] [LinearOrder K] [Libm K] (left : ℕ)
    (p0 c1 c2 p1 : K × K) : (subdivideCubic left p0 c1 c2 p1).length < 2 ^ left := by
  induction left generalizing p0 c1 c2 p1 with
  | zero => exact Nat.one_pos
  | succ left ih =>
    unfold subdivideCubic
    by_cases hflat : cubicIsFlat p0 c1 c2 p1 = true
    · rw [if_pos hflat]
      exact Nat.two_pow_pos _
    · rw [if_neg hflat]
      dsimp only
      rw [List.length_append, List.length_cons, pow_succ]
      have hfirst := ih p0 (mid p0 c1) (mid (mid p0 c1) (mid c1 c2))
        (mid (mid (mid p0 c1) (mid c1 c2)) (mid (mid c1 c2) (mid c2 p1)))
      have hsecond := ih (mid (mid (mid p0 c1) (mid c1 c2)) (mid (mid c1 c2) (mid c2 p1)))
        (mid (mid c1 c2) (mid c2 p1)) (mid c2 p1) p1
      omega

/-- **A flattened curve**: its points, where it ends and how many they are. -/
theorem flattenCubic_spec (p0 c1 c2 p1 : ℝ × ℝ) :
    ((flattenCubic p0 c1 c2 p1).map place).getLast? = some (place p1)
      ∧ (flattenCubic p0 c1 c2 p1).length ≤ 2 ^ 24
      ∧ (Settles bezierMaxDepth p0 c1 c2 p1 → ∀ t ∈ Set.Icc (0 : ℝ) 1, Near chordToleranceMm
        (place p0 :: (flattenCubic p0 c1 c2 p1).map place) ((cubic p0 c1 c2 p1).point t)) := by
  unfold flattenCubic
  refine ⟨?_, ?_, fun h t ht => ?_⟩
  · rw [List.map_append, List.map_singleton, List.getLast?_concat]
  · rw [List.length_append]
    exact length_subdivideCubic bezierMaxDepth p0 c1 c2 p1
  · rw [List.map_append, List.map_singleton]
    exact near_subdivideCubic h ht

/-- The first control point of the cubic curve that is a quadratic one. -/
noncomputable def elevate (p c : ℝ × ℝ) : ℝ × ℝ :=
  (p.1 + 2 / 3 * (c.1 - p.1), p.2 + 2 / 3 * (c.2 - p.2))

/-- A quadratic curve is a cubic one. -/
theorem point_elevate (p0 c p1 : ℝ × ℝ) (t : ℝ) :
    (cubic p0 (elevate p0 c) (elevate p1 c) p1).point t = quadraticPoint p0 c p1 t := by
  have hplace (p : ℝ × ℝ) : place (elevate p c) = place p + 2 / 3 * (place c - place p) := by
    apply Complex.ext <;> simp [place, elevate]
  unfold cubic Cubic.point quadraticPoint
  rw [hplace, hplace]
  push_cast
  ring

/-! ## What is flattened well -/

/-- **Flattened curves.** All end where their curve does and have a bounded number of points. An
arc that goes around no more than once, a circle, the circle of a macro and a bulge are within
the tolerance exactly where their chords are fine enough; a cubic or a quadratic curve is, where
every piece that is not halved any more hugs its chord. -/
theorem flatten_spec (cx cy r θ s diameter x y x0 y0 x1 y1 b : ℝ) (p0 c1 c2 c p1 : ℝ × ℝ) :
    (((flattenArc cx cy r θ s).map place).getLast? = some (ArcChords.point ⟨cx, cy⟩ r θ s 1)
      ∧ (flattenArc cx cy r θ s).length ≤ 512
      ∧ (|s| ≤ 2 * Real.pi → ((∀ t ∈ Set.Icc (0 : ℝ) 1, Near chordToleranceMm
          (ArcChords.point ⟨cx, cy⟩ r θ s 0 :: (flattenArc cx cy r θ s).map place)
          (ArcChords.point ⟨cx, cy⟩ r θ s t)) ↔ ArcFine r s)))
      ∧ ((circlePolygon cx cy r).length ≤ 512
        ∧ ((∀ t ∈ Set.Icc (0 : ℝ) 1, Near chordToleranceMm (closed (circlePolygon cx cy r))
            (ArcChords.point ⟨cx, cy⟩ r 0 tau t)) ↔ CircleFine r))
      ∧ (((∀ t ∈ Set.Icc (0 : ℝ) 1, Near chordToleranceMm
            (closed (flashCircle 1 diameter x y cx cy))
            (ArcChords.point ⟨1 * x + cx, 1 * y + cy⟩ (1 * (diameter / 2)) 0 tau t))
          ↔ CircleFine (diameter / 2))
        ∧ ((∀ t ∈ Set.Icc (0 : ℝ) 1, Near chordToleranceMm
            (closed (flashCircle (254 / 10) diameter x y cx cy))
            (ArcChords.point ⟨254 / 10 * x + cx, 254 / 10 * y + cy⟩ (254 / 10 * (diameter / 2)) 0
              tau t))
          ↔ 254 / 10 * |diameter / 2| * (1 - Real.cos (Real.pi / 8)) ≤ chordToleranceMm))
      ∧ (((flattenBulge x0 y0 x1 y1 b).map place).getLast? = some ⟨x1, y1⟩
        ∧ (flattenBulge x0 y0 x1 y1 b).length ≤ 512
        ∧ ((∀ t ∈ Set.Icc (0 : ℝ) 1, Near chordToleranceMm
            (⟨x0, y0⟩ :: (flattenBulge x0 y0 x1 y1 b).map place)
            (Bulge.point ⟨x0, y0⟩ ⟨x1, y1⟩ b t)) ↔ BulgeFine x0 y0 x1 y1 b))
      ∧ (((flattenCubic p0 c1 c2 p1).map place).getLast? = some (place p1)
        ∧ (flattenCubic p0 c1 c2 p1).length ≤ 2 ^ 24
        ∧ (Settles bezierMaxDepth p0 c1 c2 p1 → ∀ t ∈ Set.Icc (0 : ℝ) 1, Near chordToleranceMm
          (place p0 :: (flattenCubic p0 c1 c2 p1).map place) ((cubic p0 c1 c2 p1).point t)))
      ∧ (((flattenQuad p0 c p1).map place).getLast? = some (place p1)
        ∧ (flattenQuad p0 c p1).length ≤ 2 ^ 24
        ∧ (Settles bezierMaxDepth p0 (elevate p0 c) (elevate p1 c) p1 →
          ∀ t ∈ Set.Icc (0 : ℝ) 1, Near chordToleranceMm
            (place p0 :: (flattenQuad p0 c p1).map place) (quadraticPoint p0 c p1 t))) := by
  refine ⟨?_, ?_, ?_, ?_, flattenCubic_spec p0 c1 c2 p1, ?_⟩
  · exact ⟨getLast_flattenArc cx cy r θ s, length_flattenArc cx cy r θ s, near_flattenArc_iff⟩
  · refine ⟨?_, near_circlePolygon_iff⟩
    unfold circlePolygon
    rw [List.length_map, List.length_range]
    exact (arcSegmentCount_bounds r tau).2
  · refine ⟨?_, near_flashCircle_inch_iff⟩
    rw [closed_flashCircle, one_mul, one_mul, one_mul, ← closed_circlePolygon]
    exact near_circlePolygon_iff
  · exact ⟨getLast_flattenBulge x0 y0 x1 y1 b, length_flattenBulge x0 y0 x1 y1 b,
      near_flattenBulge_iff⟩
  · obtain ⟨hlast, hlength, hnear⟩ := flattenCubic_spec p0 (elevate p0 c) (elevate p1 c) p1
    refine ⟨hlast, hlength, fun h t ht => ?_⟩
    rw [← point_elevate]
    exact hnear h t ht

/-- A circle of a metre, and a curve that runs along its chord and beyond, are not within the
tolerance. -/
theorem not_near_flatten :
    (¬ ∀ cx cy r θ s : ℝ, |s| ≤ 2 * Real.pi → ∀ t ∈ Set.Icc (0 : ℝ) 1, Near chordToleranceMm
        (ArcChords.point ⟨cx, cy⟩ r θ s 0 :: (flattenArc cx cy r θ s).map place)
        (ArcChords.point ⟨cx, cy⟩ r θ s t))
      ∧ ¬ ∀ (p0 c1 c2 p1 : ℝ × ℝ), ∀ t ∈ Set.Icc (0 : ℝ) 1, Near chordToleranceMm
        (place p0 :: (flattenCubic p0 c1 c2 p1).map place) ((cubic p0 c1 c2 p1).point t) := by
  constructor
  · intro h
    have hfine : ArcFine 1000 tau :=
      (near_flattenArc_iff abs_tau.le).1 (h 0 0 1000 0 tau abs_tau.le)
    have hlong : ¬((1000 : ℝ) ≤ 0 ∨ |(tau : ℝ)| ≤ f64Epsilon) := by
      rw [abs_tau]
      unfold f64Epsilon
      rintro (hzero | hshort)
      · linarith
      · linarith [Real.pi_gt_three]
    unfold ArcFine at hfine
    rw [if_neg hlong, tau_div] at hfine
    unfold chordToleranceMm at hfine
    have hcos := Real.cos_le_one_sub_mul_cos_sq (x := Real.pi / 512)
      (by rw [abs_of_pos (by positivity)]; linarith [Real.pi_pos])
    have hsquare : 2 / Real.pi ^ 2 * (Real.pi / 512) ^ 2 = 2 / 512 ^ 2 := by
      have hpi := Real.pi_ne_zero
      field_simp
    rw [hsquare] at hcos
    linarith
  · intro h
    have hflat : cubicIsFlat ((0, 0) : ℝ × ℝ) (10, 0) (10, 0) (1, 0) = true := by
      unfold cubicIsFlat f64Epsilon
      norm_num
      unfold chordToleranceMm
      norm_num
    have hchord : flattenCubic ((0, 0) : ℝ × ℝ) (10, 0) (10, 0) (1, 0) = [(1, 0)] := by
      have hstop : subdivideCubic (23 + 1) ((0, 0) : ℝ × ℝ) (10, 0) (10, 0) (1, 0) = [] :=
        if_pos hflat
      unfold flattenCubic
      show subdivideCubic (23 + 1) _ _ _ _ ++ _ = _
      rw [hstop, List.nil_append]
    have hnear := h (0, 0) (10, 0) (10, 0) (1, 0) (1 / 2) ⟨by norm_num, by norm_num⟩
    rw [hchord] at hnear
    obtain ⟨u, ⟨hu0, hu1⟩, hdist⟩ := near_pair_iff.1 hnear
    have hre := (Complex.abs_re_le_norm _).trans hdist
    have hvalue : ((cubic (0, 0) (10, 0) (10, 0) (1, 0)).point (1 / 2)
        - between (place (0, 0)) (place (1, 0)) u).re = 61 / 8 - u := by
      unfold cubic Cubic.point between place
      simp only [Complex.sub_re, Complex.add_re, Complex.re_ofReal_mul]
      norm_num
    unfold chordToleranceMm at hre
    rw [hvalue, abs_of_nonneg (by linarith)] at hre
    linarith

end Galdr.Import.Flatten
