import Galdr.ObjectCollection

/-!
# Affine maps and rectangles

Affine maps of the plane compose, and one whose determinant is far enough from zero has an
inverse on both sides; the rigid maps do, whatever their tolerance lets pass. An affine map takes
a rectangle that is parallel to the axes to the rectangle between the images of two opposite
corners just when each side of the rectangle stays parallel to an axis or has no length
(`Affine.image_uIcc_iff`).
-/

namespace Galdr.Project

namespace Affine

variable {K : Type} [Field K]

omit [Field K] in
/-- The maps agree in every coefficient. -/
theorem eq_of {m m' : Affine K} (ha : m.a = m'.a) (hb : m.b = m'.b) (hc : m.c = m'.c)
    (hd : m.d = m'.d) (he : m.e = m'.e) (hf : m.f = m'.f) : m = m' := by
  obtain ⟨a, b, c, d, e, f⟩ := m
  obtain ⟨a', b', c', d', e', f'⟩ := m'
  rw [Affine.mk.injEq]
  exact ⟨ha, hb, hc, hd, he, hf⟩

theorem andThen_assoc (m m' m'' : Affine K) :
    (m.andThen m').andThen m'' = m.andThen (m'.andThen m'') := by
  apply eq_of <;> unfold andThen <;> ring

@[simp] theorem andThen_identity (m : Affine K) : m.andThen .identity = m := by
  apply eq_of <;> simp [andThen, identity]

@[simp] theorem identity_andThen (m : Affine K) : Affine.andThen .identity m = m := by
  apply eq_of <;> simp [andThen, identity]

/-- The image behind one map and then another. -/
theorem apply_andThen (m m' : Affine K) (p : K × K) :
    (m.andThen m').apply p = m'.apply (m.apply p) := by
  unfold andThen apply
  ext
  · ring
  · ring

@[simp] theorem apply_identity (p : K × K) : Affine.apply .identity p = p := by
  unfold identity apply
  ext
  · ring
  · ring

theorem determinant_andThen (m m' : Affine K) :
    (m.andThen m').determinant = m.determinant * m'.determinant := by
  unfold andThen determinant
  ring

@[simp] theorem determinant_identity : (identity : Affine K).determinant = 1 := by
  simp [determinant, identity]

@[simp] theorem determinant_translate (dx dy : K) : (translate dx dy).determinant = 1 := by
  simp [determinant, translate]

/-- A map that is not singular takes every point from one point. -/
theorem bijective_apply {m : Affine K} (hdet : m.determinant ≠ 0) :
    Function.Bijective m.apply := by
  have hone : (m.a * m.e - m.b * m.d) * m.determinant⁻¹ = 1 := mul_inv_cancel₀ hdet
  generalize m.determinant⁻¹ = i at hone
  unfold apply
  constructor
  · rintro ⟨x, y⟩ ⟨x', y'⟩ h
    obtain ⟨hx, hy⟩ := Prod.mk.inj h
    ext
    · linear_combination (x' - x) * hone + m.e * i * hx - m.b * i * hy
    · linear_combination (y' - y) * hone + m.a * i * hy - m.d * i * hx
  · rintro ⟨x, y⟩
    refine ⟨((m.e * (x - m.c) - m.b * (y - m.f)) * i,
      (m.a * (y - m.f) - m.d * (x - m.c)) * i), ?_⟩
    ext
    · linear_combination (x - m.c) * hone
    · linear_combination (y - m.f) * hone

section Order

variable [LinearOrder K] [IsStrictOrderedRing K]

/-- The inverse of a map undoes it. -/
theorem andThen_inverse {m inv : Affine K} (h : m.inverse = some inv) :
    m.andThen inv = .identity ∧ inv.andThen m = .identity := by
  unfold inverse at h
  dsimp only at h
  split at h
  · cases h
  · rename_i hlarge
    have hdet : m.determinant ≠ 0 := by
      intro hzero
      rw [hzero, abs_zero] at hlarge
      exact hlarge (by positivity)
    obtain rfl := Option.some.inj h
    have hone : (m.a * m.e - m.b * m.d) * (1 / m.determinant) = 1 := mul_one_div_cancel hdet
    generalize 1 / m.determinant = i at hone
    unfold andThen identity
    constructor
    · apply eq_of <;> dsimp only
      · linear_combination hone
      · ring
      · ring
      · ring
      · linear_combination hone
      · ring
    · apply eq_of <;> dsimp only
      · linear_combination hone
      · ring
      · linear_combination -m.c * hone
      · ring
      · linear_combination hone
      · linear_combination -m.f * hone

/-- A map that passes for rigid is far from singular. -/
theorem half_lt_determinant {m : Affine K} (h : m.isRigid = true) : 1 / 2 < m.determinant := by
  unfold isRigid at h
  simp only [Bool.and_eq_true, decide_eq_true_eq] at h
  obtain ⟨⟨⟨hcol0, hcol1⟩, hdot⟩, hpos⟩ := h
  have h0 := (abs_lt.1 hcol0).1
  have h1 := (abs_lt.1 hcol1).1
  have hdot' := abs_lt.1 hdot
  -- Lagrange's identity: the square of the determinant from the columns.
  have hlagrange : m.determinant ^ 2 = (m.a * m.a + m.d * m.d) * (m.b * m.b + m.e * m.e)
      - (m.a * m.b + m.d * m.e) ^ 2 := by
    unfold determinant
    ring
  have hdots : (m.a * m.b + m.d * m.e) ^ 2 < 1 / 4 := by
    have hsmall : |m.a * m.b + m.d * m.e| < 1 / 2 := hdot.trans (by norm_num)
    have hsq := sq_lt_sq' (abs_lt.1 hsmall).1 (abs_lt.1 hsmall).2
    linarith [hsq, show ((1 : K) / 2) ^ 2 = 1 / 4 by norm_num]
  have htol : (1 : K) / 1000000000 < 1 / 4 := by norm_num
  have hcol0' : 3 / 4 < m.a * m.a + m.d * m.d := by linarith
  have hcol1' : 3 / 4 < m.b * m.b + m.e * m.e := by linarith
  have hcols : (3 / 4 : K) * (3 / 4) < (m.a * m.a + m.d * m.d) * (m.b * m.b + m.e * m.e) :=
    mul_lt_mul'' hcol0' hcol1' (by norm_num) (by norm_num)
  nlinarith

theorem exists_inverse {m : Affine K} (h : m.isRigid = true) :
    ∃ inv, m.inverse = some inv ∧ inv.determinant ≠ 0 := by
  have hhalf := half_lt_determinant h
  have hlarge : ¬ |m.determinant| < 1 / 1000000000000 := by
    rw [abs_of_pos (by linarith)]
    have hsmall : (1 : K) / 1000000000000 < 1 / 2 := by norm_num
    exact not_lt.2 (by linarith)
  have hinv : ∃ inv, m.inverse = some inv := by
    unfold inverse
    dsimp only
    rw [if_neg hlarge]
    exact ⟨_, rfl⟩
  obtain ⟨inv, hinv⟩ := hinv
  refine ⟨inv, hinv, fun hzero => ?_⟩
  have hone := congrArg determinant (andThen_inverse hinv).1
  rw [determinant_andThen, hzero, mul_zero, determinant_identity] at hone
  exact zero_ne_one hone

/-- What leads from one rigid map to another map is one map. -/
theorem andThen_left_cancel {start m m' : Affine K} (h : start.isRigid = true)
    (hsame : start.andThen m = start.andThen m') : m = m' := by
  obtain ⟨inv, hinv, -⟩ := exists_inverse h
  calc m = (inv.andThen start).andThen m := by rw [(andThen_inverse hinv).2, identity_andThen]
    _ = inv.andThen (start.andThen m') := by rw [andThen_assoc, hsame]
    _ = m' := by rw [← andThen_assoc, (andThen_inverse hinv).2, identity_andThen]

/-! ## Rectangles -/

omit [IsStrictOrderedRing K] in
/-- Neither side of the rectangle between two corners is skewed. -/
def KeepsSides (m : Affine K) (low high : K × K) : Prop :=
  (low.1 = high.1 ∨ m.a = 0 ∨ m.d = 0) ∧ (low.2 = high.2 ∨ m.b = 0 ∨ m.e = 0)

theorem mem_uIcc_iff_mul {x a b : K} : x ∈ Set.uIcc a b ↔ 0 ≤ (x - a) * (b - x) := by
  rw [Set.mem_uIcc, mul_nonneg_iff, sub_nonneg, sub_nonneg, sub_nonpos, sub_nonpos]
  exact or_congr Iff.rfl and_comm

/-- A point lies in a rectangle between opposite corners. -/
theorem mem_uIcc_iff {p low high : K × K} : p ∈ Set.uIcc low high ↔
    0 ≤ (p.1 - low.1) * (high.1 - p.1) ∧ 0 ≤ (p.2 - low.2) * (high.2 - p.2) := by
  rw [← mem_uIcc_iff_mul, ← mem_uIcc_iff_mul]
  exact Set.ext_iff.1 (Set.uIcc_prod_uIcc low.1 high.1 low.2 high.2).symm p

/-- Only zero has a square that is not positive. -/
theorem eq_zero_of_nonneg_mul {x : K} (h : 0 ≤ x * (0 - x)) : x = 0 :=
  mul_self_eq_zero.1 (le_antisymm (by linarith) (mul_self_nonneg x))

/-- Where the steps along one side and the other go the same way, and the corner that is
opposite in one coordinate is within the rectangle, one of the steps is none. -/
theorem eq_zero_or_of_corner {k l s w h u v : K} (hsame : 0 ≤ k * w * (l * h))
    (hu : 0 ≤ u * (w - u)) (hv : 0 ≤ v * (h - v))
    (hcorner : u * w * (v * h) = -(k * w * (l * h) * s ^ 2)) (hs : s ≠ 0) :
    k * w = 0 ∨ l * h = 0 := by
  have huw : 0 ≤ u * w := by linarith [mul_self_nonneg u]
  have hvh : 0 ≤ v * h := by linarith [mul_self_nonneg v]
  have hzero : k * w * (l * h) * s ^ 2 = 0 :=
    le_antisymm (by linarith [mul_nonneg huw hvh]) (mul_nonneg hsame (sq_nonneg s))
  exact mul_eq_zero.1 ((mul_eq_zero.1 hzero).resolve_right (pow_ne_zero 2 hs))

/-- Where the steps whose images stay in the rectangle between the images are those that stay in
the rectangle, no side is skewed. -/
theorem sides_of_step {a b d e w h : K} (hdet : a * e - b * d ≠ 0)
    (hall : ∀ u v, (0 ≤ (a * u + b * v) * (a * (w - u) + b * (h - v))
        ∧ 0 ≤ (d * u + e * v) * (d * (w - u) + e * (h - v)))
      ↔ 0 ≤ u * (w - u) ∧ 0 ≤ v * (h - v)) :
    (w = 0 ∨ a = 0 ∨ d = 0) ∧ (h = 0 ∨ b = 0 ∨ e = 0) := by
  have hone : (a * e - b * d) * (a * e - b * d)⁻¹ = 1 := mul_inv_cancel₀ hdet
  have hi := inv_ne_zero hdet
  generalize (a * e - b * d)⁻¹ = i at hone hi
  -- The corners of the rectangle between the images, as images of points of the rectangle.
  have hcorner : ∀ s t : K, s * (a * w + b * h - s) = 0 → t * (d * w + e * h - t) = 0 →
      0 ≤ (e * s - b * t) * i * (w - (e * s - b * t) * i)
        ∧ 0 ≤ (a * t - d * s) * i * (h - (a * t - d * s) * i) := by
    intro s t hs ht
    have hx : a * ((e * s - b * t) * i) + b * ((a * t - d * s) * i) = s := by
      linear_combination s * hone
    have hy : d * ((e * s - b * t) * i) + e * ((a * t - d * s) * i) = t := by
      linear_combination t * hone
    refine (hall _ _).1 ⟨le_of_eq ?_, le_of_eq ?_⟩
    · rw [hx]
      linear_combination -hs + s * hx
    · rw [hy]
      linear_combination -ht + t * hy
  have h₁ := hcorner 0 (d * w + e * h) (by ring) (by ring)
  have h₂ := hcorner (a * w + b * h) 0 (by ring) (by ring)
  simp only [mul_zero, zero_sub, sub_zero] at h₁ h₂
  obtain ⟨hab, hde⟩ := (hall w 0).2 ⟨by simp, by simp⟩
  simp only [mul_zero, add_zero, sub_self, sub_zero, zero_add] at hab hde
  by_cases hw : w = 0
  · rw [hw, mul_zero, zero_add] at h₁
    have hzero := eq_zero_of_nonneg_mul h₁.1
    simp only [mul_eq_zero, neg_eq_zero, hi, or_false] at hzero
    exact ⟨.inl hw, by tauto⟩
  by_cases hh : h = 0
  · rw [hh, mul_zero, add_zero] at h₂
    have hzero := eq_zero_of_nonneg_mul h₂.2
    simp only [mul_eq_zero, neg_eq_zero, hi, or_false] at hzero
    exact ⟨by tauto, .inl hh⟩
  -- The image of neither side is none, so that no two of the steps are.
  have hsum : ∀ {k l : K}, 0 ≤ k * w * (l * h) → k * w + l * h = 0 → k = 0 ∧ l = 0 := by
    intro k l hsame hnone
    have hneg : k * w = 0 - l * h := by linear_combination hnone
    rw [hneg, mul_comm] at hsame
    have hl := eq_zero_of_nonneg_mul hsame
    rw [hl, add_zero] at hnone
    exact ⟨(mul_eq_zero.1 hnone).resolve_right hw, (mul_eq_zero.1 hl).resolve_right hh⟩
  have hx : a = 0 ∨ b = 0 := by
    by_cases hy : d * w + e * h = 0
    · obtain ⟨rfl, rfl⟩ := hsum hde hy
      simp at hdet
    · have hstep := eq_zero_or_of_corner (s := (d * w + e * h) * i) hab h₁.1 h₁.2 (by ring)
        (mul_ne_zero hy hi)
      simpa only [mul_eq_zero, hw, hh, or_false] using hstep
  have hy : d = 0 ∨ e = 0 := by
    by_cases hx : a * w + b * h = 0
    · obtain ⟨rfl, rfl⟩ := hsum hab hx
      simp at hdet
    · have hstep := eq_zero_or_of_corner (s := (a * w + b * h) * i) hde h₂.1 h₂.2 (by ring)
        (mul_ne_zero hx hi)
      simpa only [mul_eq_zero, hw, hh, or_false] using hstep
  rcases hx with rfl | rfl
  · rcases hy with rfl | rfl
    · simp at hdet
    · exact ⟨.inr (.inl rfl), .inr (.inr rfl)⟩
  · rcases hy with rfl | rfl
    · exact ⟨.inr (.inr rfl), .inr (.inl rfl)⟩
    · simp at hdet

/-- Where no side is skewed, the steps from a corner whose images stay in the rectangle between
the images are those that stay in the rectangle. -/
theorem step_iff {a b d e w h u v : K} (hdet : a * e - b * d ≠ 0)
    (hw : w = 0 ∨ a = 0 ∨ d = 0) (hh : h = 0 ∨ b = 0 ∨ e = 0) :
    (0 ≤ (a * u + b * v) * (a * (w - u) + b * (h - v))
        ∧ 0 ≤ (d * u + e * v) * (d * (w - u) + e * (h - v)))
      ↔ 0 ≤ u * (w - u) ∧ 0 ≤ v * (h - v) := by
  have hzero : ∀ x : K, 0 ≤ x * (0 - x) ↔ x = 0 := by
    intro x
    constructor
    · exact eq_zero_of_nonneg_mul
    · rintro rfl
      simp
  have hscale : ∀ {k : K}, k ≠ 0 → ∀ x y : K, 0 ≤ k * x * (k * y) ↔ 0 ≤ x * y := by
    intro k hk x y
    rw [mul_mul_mul_comm]
    exact mul_nonneg_iff_of_pos_left (mul_self_pos.2 hk)
  rcases hw with rfl | rfl | rfl
  · rcases hh with rfl | rfl | rfl
    · have hx : (a * u + b * v) * (a * (0 - u) + b * (0 - v))
          = (a * u + b * v) * (0 - (a * u + b * v)) := by ring
      have hy : (d * u + e * v) * (d * (0 - u) + e * (0 - v))
          = (d * u + e * v) * (0 - (d * u + e * v)) := by ring
      rw [hx, hy, hzero, hzero, hzero, hzero]
      constructor
      · rintro ⟨hx, hy⟩
        have hu : (a * e - b * d) * u = 0 := by linear_combination e * hx - b * hy
        have hv : (a * e - b * d) * v = 0 := by linear_combination a * hy - d * hx
        exact ⟨(mul_eq_zero.1 hu).resolve_left hdet, (mul_eq_zero.1 hv).resolve_left hdet⟩
      · rintro ⟨rfl, rfl⟩
        simp
    · have ha : a ≠ 0 := by rintro rfl; simp at hdet
      have he : e ≠ 0 := by rintro rfl; simp at hdet
      simp only [zero_mul, add_zero]
      rw [hscale ha, hzero]
      refine and_congr_right fun hu => ?_
      rw [hu, sub_zero, mul_zero, zero_add, zero_add, hscale he]
    · have hb : b ≠ 0 := by rintro rfl; simp at hdet
      have hd : d ≠ 0 := by rintro rfl; simp at hdet
      simp only [zero_mul, add_zero]
      rw [hscale hd, hzero, and_comm]
      refine and_congr_right fun hu => ?_
      rw [hu, sub_zero, mul_zero, zero_add, zero_add, hscale hb]
  · have hb : b ≠ 0 := by rintro rfl; simp at hdet
    have hd : d ≠ 0 := by rintro rfl; simp at hdet
    rcases hh with rfl | rfl | rfl
    · simp only [zero_mul, zero_add]
      rw [hscale hb, hzero, and_comm]
      refine and_congr_left fun hv => ?_
      rw [hv, sub_zero, mul_zero, add_zero, add_zero, hscale hd]
    · exact absurd rfl hb
    · simp only [zero_mul, zero_add, add_zero]
      rw [hscale hb, hscale hd, and_comm]
  · have ha : a ≠ 0 := by rintro rfl; simp at hdet
    have he : e ≠ 0 := by rintro rfl; simp at hdet
    rcases hh with rfl | rfl | rfl
    · simp only [zero_mul, zero_add]
      rw [hscale he, hzero]
      refine and_congr_left fun hv => ?_
      rw [hv, sub_zero, mul_zero, add_zero, add_zero, hscale ha]
    · simp only [zero_mul, zero_add, add_zero]
      rw [hscale ha, hscale he]
    · exact absurd rfl he

/-- **An affine map takes a rectangle to the rectangle between the images of its corners just
when neither side is skewed.** -/
theorem image_uIcc_iff {m : Affine K} (hdet : m.determinant ≠ 0) (low high : K × K) :
    Set.uIcc (m.apply low) (m.apply high) = m.apply '' Set.uIcc low high
      ↔ m.KeepsSides low high := by
  have hbij := bijective_apply hdet
  unfold determinant at hdet
  have hpoint : ∀ p : K × K, m.apply p ∈ Set.uIcc (m.apply low) (m.apply high) ↔
      0 ≤ (m.a * (p.1 - low.1) + m.b * (p.2 - low.2))
          * (m.a * (high.1 - low.1 - (p.1 - low.1)) + m.b * (high.2 - low.2 - (p.2 - low.2)))
        ∧ 0 ≤ (m.d * (p.1 - low.1) + m.e * (p.2 - low.2))
          * (m.d * (high.1 - low.1 - (p.1 - low.1)) + m.e * (high.2 - low.2 - (p.2 - low.2))) := by
    intro p
    rw [mem_uIcc_iff]
    unfold apply
    ring_nf
  have hinside : ∀ p : K × K, p ∈ Set.uIcc low high ↔
      0 ≤ (p.1 - low.1) * (high.1 - low.1 - (p.1 - low.1))
        ∧ 0 ≤ (p.2 - low.2) * (high.2 - low.2 - (p.2 - low.2)) := by
    intro p
    rw [mem_uIcc_iff, sub_sub_sub_cancel_right, sub_sub_sub_cancel_right]
  constructor
  · intro h
    have hsides := sides_of_step (w := high.1 - low.1) (h := high.2 - low.2) hdet fun u v => by
      have hsame := (hpoint (low.1 + u, low.2 + v)).symm.trans
        ((Set.ext_iff.1 h _).trans (hbij.1.mem_set_image.trans (hinside (low.1 + u, low.2 + v))))
      simpa only [add_sub_cancel_left] using hsame
    rw [sub_eq_zero, sub_eq_zero, eq_comm, eq_comm (a := high.2)] at hsides
    exact hsides
  · rintro ⟨hw, hh⟩
    rw [← sub_eq_zero, ← neg_eq_zero, neg_sub] at hw hh
    refine Set.ext fun q => ?_
    obtain ⟨p, rfl⟩ := hbij.2 q
    rw [hbij.1.mem_set_image, hpoint, hinside]
    exact step_iff hdet hw hh

end Order

end Affine

end Galdr.Project
