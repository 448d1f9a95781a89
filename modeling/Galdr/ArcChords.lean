import Galdr.Libm

/-!
# Curves and the chords along them

A path of points is near a point of the plane where one of its chords has a
point within a tolerance. Chords of equal angle along an arc are as far from it
as the height of the arc over one of them (`ArcChords.near_path_iff`): the
middle of a piece is that far from every chord, as long as the arc does not go
around more than once.

A cubic curve lies within the hull of its control points, so it is near a chord
that they are near to.
-/

open Complex

namespace ArcChords

/-- A share of the way from a point to another. -/
def between (a b : ℂ) (u : ℝ) : ℂ := (1 - u : ℝ) * a + (u : ℝ) * b

/-- A point is near a chord. -/
def NearChord (tol : ℝ) (a b z : ℂ) : Prop := ∃ u ∈ Set.Icc (0 : ℝ) 1, ‖z - between a b u‖ ≤ tol

/-- A point is near a path: it is near one of its chords. -/
def Near (tol : ℝ) (path : List ℂ) (z : ℂ) : Prop :=
  ∃ a b, [a, b] <:+: path ∧ NearChord tol a b z

theorem Near.mono {tol : ℝ} {path path' : List ℂ} {z : ℂ} (h : Near tol path z)
    (hpath : path <:+: path') : Near tol path' z := by
  obtain ⟨a, b, hab, hz⟩ := h
  exact ⟨a, b, hab.trans hpath, hz⟩

theorem near_pair_iff {tol : ℝ} {a b z : ℂ} : Near tol [a, b] z ↔ NearChord tol a b z := by
  refine ⟨fun ⟨a', b', hab, hz⟩ => ?_, fun hz => ⟨a, b, List.infix_rfl, hz⟩⟩
  obtain ⟨rfl, htail⟩ := List.cons.inj (hab.eq_of_length rfl)
  obtain ⟨rfl, -⟩ := List.cons.inj htail
  exact hz

/-! ## One chord -/

/-- **The height of an arc over its chord**: on the unit circle, from half an angle to the one
side of the axis to as much to the other. -/
theorem nearChord_unit {h φ : ℝ} (h0 : 0 ≤ h) (hpi : h ≤ Real.pi) (hφ : |φ| ≤ h) :
    NearChord (1 - Real.cos h) (exp ((-h : ℝ) * I)) (exp ((h : ℝ) * I)) (exp ((φ : ℝ) * I)) := by
  have hcos : Real.cos h ≤ Real.cos φ := by
    rw [← Real.cos_abs φ]
    exact Real.cos_le_cos_of_nonneg_of_le_pi (abs_nonneg φ) hpi hφ
  have hone : Real.cos φ ≤ 1 := Real.cos_le_one φ
  have hsin : 0 ≤ Real.sin h := Real.sin_nonneg_of_nonneg_of_le_pi h0 hpi
  have hunit : Real.sin h ^ 2 + Real.cos h ^ 2 = 1 := Real.sin_sq_add_cos_sq h
  have hunit' : Real.sin φ ^ 2 + Real.cos φ ^ 2 = 1 := Real.sin_sq_add_cos_sq φ
  have hpoint (u : ℝ) : ‖exp ((φ : ℝ) * I) - between (exp ((-h : ℝ) * I)) (exp ((h : ℝ) * I)) u‖ ^ 2
      = (Real.cos φ - Real.cos h) ^ 2 + (Real.sin φ - (2 * u - 1) * Real.sin h) ^ 2 := by
    rw [Complex.sq_norm, normSq_apply]
    unfold between
    simp only [sub_re, sub_im, add_re, add_im, re_ofReal_mul, im_ofReal_mul, exp_ofReal_mul_I_re,
      exp_ofReal_mul_I_im, Real.cos_neg, Real.sin_neg]
    ring
  have hbound {u : ℝ} (hu : (Real.cos φ - Real.cos h) ^ 2
      + (Real.sin φ - (2 * u - 1) * Real.sin h) ^ 2 ≤ (1 - Real.cos h) ^ 2) :
      ‖exp ((φ : ℝ) * I) - between (exp ((-h : ℝ) * I)) (exp ((h : ℝ) * I)) u‖
        ≤ 1 - Real.cos h := by
    refine le_of_sq_le_sq ?_ (by linarith)
    rw [hpoint u]
    exact hu
  by_cases hfoot : |Real.sin φ| ≤ Real.sin h
  · -- straight down onto the chord
    by_cases hzero : Real.sin h = 0
    · refine ⟨0, ⟨le_rfl, zero_le_one⟩, hbound ?_⟩
      rw [hzero, abs_nonpos_iff] at hfoot
      rw [hfoot, hzero]
      nlinarith
    · have hpos : 0 < Real.sin h := lt_of_le_of_ne hsin (Ne.symm hzero)
      obtain ⟨hlow, hhigh⟩ := abs_le.1 hfoot
      refine ⟨(1 + Real.sin φ / Real.sin h) / 2, ⟨?_, ?_⟩, hbound ?_⟩
      · have : -1 ≤ Real.sin φ / Real.sin h := by
          rw [le_div_iff₀ hpos]
          linarith
        linarith
      · have : Real.sin φ / Real.sin h ≤ 1 := by
          rw [div_le_one hpos]
          linarith
        linarith
      · have hsame : (2 * ((1 + Real.sin φ / Real.sin h) / 2) - 1) * Real.sin h = Real.sin φ := by
          field_simp
          ring
        rw [hsame, sub_self]
        nlinarith
  · -- beside the chord, which is more than half the arc away: to the nearer end
    have hlong : Real.cos h < 0 := by
      by_contra hnot
      have hhalf : h ≤ Real.pi / 2 := by
        by_contra hover
        exact hnot (Real.cos_neg_of_pi_div_two_lt_of_lt (not_le.1 hover)
          (by linarith [Real.pi_pos]))
      refine hfoot ?_
      rw [Real.abs_sin_eq_sin_abs_of_abs_le_pi (hφ.trans hpi)]
      exact Real.sin_le_sin_of_le_of_le_pi_div_two
        (by linarith [abs_nonneg φ, Real.pi_pos]) hhalf hφ
    have hlow : -1 ≤ Real.cos h := Real.neg_one_le_cos h
    have hnear : ∃ u ∈ Set.Icc (0 : ℝ) 1, (Real.sin φ - (2 * u - 1) * Real.sin h) ^ 2
        = (|Real.sin φ| - Real.sin h) ^ 2 := by
      by_cases hside : 0 ≤ Real.sin φ
      · refine ⟨1, ⟨zero_le_one, le_rfl⟩, ?_⟩
        rw [abs_of_nonneg hside]
        ring
      · refine ⟨0, ⟨le_rfl, zero_le_one⟩, ?_⟩
        rw [abs_of_neg (not_le.1 hside)]
        ring
    obtain ⟨u, hu, hsame⟩ := hnear
    refine ⟨u, hu, hbound ?_⟩
    rw [hsame]
    have hs : Real.sin h < |Real.sin φ| := not_le.1 hfoot
    have habs : |Real.sin φ| ^ 2 = Real.sin φ ^ 2 := sq_abs _
    have hwide : Real.cos φ ^ 2 < Real.cos h ^ 2 := by nlinarith
    have hleft : Real.cos φ < -Real.cos h := by nlinarith
    nlinarith [mul_nonneg (sub_nonneg.2 hcos) (neg_nonneg.2 hlong.le)]

/-! ## Chords of equal angle -/

/-- The point of an arc at a share of its way. -/
noncomputable def point (c : ℂ) (r θ s t : ℝ) : ℂ := c + r * exp ((θ + s * t : ℝ) * I)

/-- The ends of its chords. -/
noncomputable def path (c : ℂ) (r θ s : ℝ) (n : ℕ) : List ℂ :=
  (List.range (n + 1)).map fun k : ℕ => point c r θ s (k / n)

/-- The ends of a chord follow one another on the path. -/
theorem infix_path (c : ℂ) (r θ s : ℝ) {n k : ℕ} (h : k < n) :
    [point c r θ s (k / n), point c r θ s ((k + 1 : ℕ) / n)] <:+: path c r θ s n := by
  refine ⟨(List.range k).map fun k : ℕ => point c r θ s (k / n),
    ((List.range' (k + 2) (n + 1 - (k + 2))).map fun k : ℕ => point c r θ s (k / n)), ?_⟩
  have hsplit : List.range (n + 1) = List.range k ++ [k, k + 1]
      ++ List.range' (k + 2) (n + 1 - (k + 2)) := by
    rw [List.range_eq_range', List.range_eq_range',
      show [k, k + 1] = List.range' k 2 from rfl, List.append_assoc]
    have htail : List.range' k 2 ++ List.range' (k + 2) (n + 1 - (k + 2))
        = List.range' k (2 + (n + 1 - (k + 2))) := List.range'_append_1 ..
    have hwhole : List.range' 0 k ++ List.range' k (2 + (n + 1 - (k + 2)))
        = List.range' 0 (k + (2 + (n + 1 - (k + 2)))) := by
      have h := @List.range'_append_1 0 k (2 + (n + 1 - (k + 2)))
      rwa [Nat.zero_add] at h
    rw [htail, hwhole]
    congr 1
    omega
  unfold path
  rw [hsplit, List.map_append, List.map_append]
  rfl

/-- A chord of an arc, wherever it lies. -/
theorem nearChord_point {c : ℂ} {r θ s mid half t : ℝ} (hpi : |s * half| ≤ Real.pi)
    (ht : |s * (t - mid)| ≤ |s * half|) :
    NearChord (|r| * (1 - Real.cos (s * half))) (point c r θ s (mid - half))
      (point c r θ s (mid + half)) (point c r θ s t) := by
  have hheight := nearChord_unit (abs_nonneg _) hpi ht
  rw [Real.cos_abs] at hheight
  -- the circle is turned to the middle of the chord, and the chord may run either way
  have hplace (x : ℝ) : point c r θ s (mid + x)
      = c + r * exp ((θ + s * mid : ℝ) * I) * exp ((s * x : ℝ) * I) := by
    unfold point
    rw [mul_assoc, ← exp_add]
    congr 3
    push_cast
    ring
  have hbetween (u : ℝ) (x y : ℝ) : between (point c r θ s (mid + x)) (point c r θ s (mid + y)) u
      = c + r * exp ((θ + s * mid : ℝ) * I)
        * between (exp ((s * x : ℝ) * I)) (exp ((s * y : ℝ) * I)) u := by
    rw [hplace, hplace]
    unfold between
    push_cast
    ring
  have hdist (u : ℝ) (x y : ℝ) :
      ‖point c r θ s t - between (point c r θ s (mid + x)) (point c r θ s (mid + y)) u‖
        = |r| * ‖exp ((s * (t - mid) : ℝ) * I)
          - between (exp ((s * x : ℝ) * I)) (exp ((s * y : ℝ) * I)) u‖ := by
    have hpt : point c r θ s t = point c r θ s (mid + (t - mid)) := by rw [add_sub_cancel]
    rw [hpt, hplace, hbetween, add_sub_add_left_eq_sub, ← mul_sub, norm_mul, norm_mul,
      norm_exp_ofReal_mul_I, mul_one, norm_real, Real.norm_eq_abs]
  have hflip (a b : ℂ) (u : ℝ) : between a b u = between b a (1 - u) := by
    unfold between
    push_cast
    ring
  obtain ⟨u, ⟨hu0, hu1⟩, hu⟩ := hheight
  rw [show mid - half = mid + -half from sub_eq_add_neg mid half]
  by_cases hsign : 0 ≤ s * half
  · refine ⟨u, ⟨hu0, hu1⟩, ?_⟩
    rw [hdist, mul_neg]
    rw [abs_of_nonneg hsign] at hu
    exact mul_le_mul_of_nonneg_left hu (abs_nonneg r)
  · refine ⟨1 - u, ⟨by linarith, by linarith⟩, ?_⟩
    rw [hdist, mul_neg, hflip, sub_sub_cancel]
    rw [abs_of_neg (not_le.1 hsign), neg_neg] at hu
    exact mul_le_mul_of_nonneg_left hu (abs_nonneg r)

/-- **An arc is near its chords**, as near as the middle of a piece. -/
theorem near_path {c : ℂ} {r θ s tol : ℝ} {n : ℕ} (hn : 0 < n) (hs : |s| ≤ 2 * Real.pi * n)
    (hheight : |r| * (1 - Real.cos (|s| / (2 * n))) ≤ tol) {t : ℝ} (ht : t ∈ Set.Icc (0 : ℝ) 1) :
    Near tol (path c r θ s n) (point c r θ s t) := by
  have hn' : (0 : ℝ) < n := Nat.cast_pos.2 hn
  obtain ⟨k, hk, hlow, hhigh⟩ : ∃ k < n, (k : ℝ) ≤ t * n ∧ t * n ≤ (k + 1 : ℕ) := by
    by_cases hlast : t = 1
    · refine ⟨n - 1, Nat.sub_lt hn Nat.one_pos, ?_, ?_⟩
      · rw [hlast, one_mul]
        exact Nat.cast_le.2 (Nat.sub_le n 1)
      · rw [hlast, one_mul, Nat.sub_add_cancel hn]
    · have hlt : t < 1 := lt_of_le_of_ne ht.2 hlast
      refine ⟨⌊t * n⌋₊, (Nat.floor_lt (mul_nonneg ht.1 hn'.le)).2 ?_,
        Nat.floor_le (mul_nonneg ht.1 hn'.le), ?_⟩
      · nlinarith
      · push_cast
        exact (Nat.lt_floor_add_one _).le
  refine ⟨_, _, infix_path c r θ s hk, ?_⟩
  have hmid : (k : ℝ) / n = (2 * k + 1) / (2 * n) - 1 / (2 * n) := by
    field_simp
    ring
  have hmid' : ((k + 1 : ℕ) : ℝ) / n = (2 * k + 1) / (2 * n) + 1 / (2 * n) := by
    push_cast
    field_simp
    ring
  have hangle : |s * (1 / (2 * n))| = |s| / (2 * n) := by
    rw [abs_mul, abs_of_pos (by positivity : (0 : ℝ) < 1 / (2 * n)), mul_one_div]
  have hcos : Real.cos (s * (1 / (2 * n))) = Real.cos (|s| / (2 * n)) := by
    rw [← hangle, Real.cos_abs]
  rw [hmid, hmid']
  have hnear : NearChord (|r| * (1 - Real.cos (s * (1 / (2 * n)))))
      (point c r θ s ((2 * k + 1) / (2 * n) - 1 / (2 * n)))
      (point c r θ s ((2 * k + 1) / (2 * n) + 1 / (2 * n))) (point c r θ s t) := by
    refine nearChord_point ?_ ?_
    · rw [hangle, div_le_iff₀ (by positivity)]
      linarith
    · rw [abs_mul, abs_mul]
      refine mul_le_mul_of_nonneg_left ?_ (abs_nonneg s)
      rw [abs_of_pos (by positivity : (0 : ℝ) < 1 / (2 * n)), abs_le]
      have hleft : (k : ℝ) / n ≤ t := (div_le_iff₀ hn').2 hlow
      have hright : t ≤ ((k + 1 : ℕ) : ℝ) / n := (le_div_iff₀ hn').2 hhigh
      rw [hmid] at hleft
      rw [hmid'] at hright
      constructor <;> linarith
  obtain ⟨u, hu, hdist⟩ := hnear
  rw [hcos] at hdist
  exact ⟨u, hu, hdist.trans hheight⟩

/-- Beyond an angle, up to a turn without it, the cosine is no greater. -/
theorem cos_le_cos_of_between {h x : ℝ} (h0 : 0 ≤ h) (hlow : h ≤ x)
    (hhigh : x ≤ 2 * Real.pi - h) : Real.cos x ≤ Real.cos h := by
  by_cases hx : x ≤ Real.pi
  · exact Real.cos_le_cos_of_nonneg_of_le_pi h0 hx hlow
  · rw [← Real.cos_two_pi_sub x]
    exact Real.cos_le_cos_of_nonneg_of_le_pi h0 (by linarith [not_le.1 hx]) (by linarith)

/-- The middle of a piece is no nearer, where the arc goes around no more than once: no end of
a chord reaches further its way than those of its own chord. -/
theorem height_le_of_near_of_nonneg {c : ℂ} {r θ s tol : ℝ} {n : ℕ} (hr : 0 ≤ r) (hn : 0 < n)
    (hs : |s| ≤ 2 * Real.pi) (h : Near tol (path c r θ s n) (point c r θ s (1 / (2 * n)))) :
    r * (1 - Real.cos (|s| / (2 * n))) ≤ tol := by
  have hn' : (0 : ℝ) < n := Nat.cast_pos.2 hn
  obtain ⟨a, b, hab, u, ⟨hu0, hu1⟩, hdist⟩ := h
  -- how far a point reaches the way of the middle, seen from the centre
  set e : ℂ := exp ((θ + s * (1 / (2 * n)) : ℝ) * I) with he
  have hreach (t : ℝ) : ((starRingEnd ℂ) e * (point c r θ s t - c)).re
      = r * Real.cos (s * (t - 1 / (2 * n))) := by
    have hproduct : (starRingEnd ℂ) e * (point c r θ s t - c)
        = r * exp ((s * (t - 1 / (2 * n)) : ℝ) * I) := by
      unfold point
      rw [he, ← exp_conj, map_mul, conj_I, conj_ofReal, add_sub_cancel_left, mul_left_comm,
        ← exp_add]
      congr 2
      push_cast
      ring
    rw [hproduct, re_ofReal_mul, exp_ofReal_mul_I_re]
  have hend {v : ℂ} (hv : v ∈ path c r θ s n) :
      ((starRingEnd ℂ) e * (v - c)).re ≤ r * Real.cos (|s| / (2 * n)) := by
    obtain ⟨j, hj, rfl⟩ := List.mem_map.1 hv
    have hj : (j : ℝ) ≤ n := Nat.cast_le.2 (Nat.lt_succ_iff.1 (List.mem_range.1 hj))
    rw [hreach]
    refine mul_le_mul_of_nonneg_left ?_ hr
    have habs : |s * ((j : ℝ) / n - 1 / (2 * n))| = |s| / (2 * n) * |2 * (j : ℝ) - 1| := by
      have hfactor : s * ((j : ℝ) / n - 1 / (2 * n)) = s / (2 * n) * (2 * j - 1) := by
        field_simp
      rw [hfactor, abs_mul, abs_div, abs_of_pos (by positivity : (0 : ℝ) < 2 * n)]
    have hh : 0 ≤ |s| / (2 * n) := by positivity
    have hwhole : |s| / (2 * n) * (2 * n) ≤ 2 * Real.pi := by
      rw [div_mul_cancel₀ _ (by positivity)]
      exact hs
    have hodd : 1 ≤ |2 * (j : ℝ) - 1| ∧ |2 * (j : ℝ) - 1| ≤ 2 * n - 1 := by
      cases j with
      | zero =>
        have hone : (1 : ℝ) ≤ n := Nat.one_le_cast.2 hn
        rw [Nat.cast_zero, mul_zero, zero_sub, abs_neg, abs_one]
        exact ⟨le_rfl, by linarith⟩
      | succ j =>
        have hpos : (0 : ℝ) ≤ j := Nat.cast_nonneg j
        push_cast at hj ⊢
        rw [abs_of_nonneg (by linarith)]
        constructor <;> linarith
    rw [← Real.cos_abs, habs]
    refine cos_le_cos_of_between hh (le_mul_of_one_le_right hh hodd.1) ?_
    calc |s| / (2 * n) * |2 * (j : ℝ) - 1| ≤ |s| / (2 * n) * (2 * n - 1) :=
          mul_le_mul_of_nonneg_left hodd.2 hh
      _ = |s| / (2 * n) * (2 * n) - |s| / (2 * n) := by ring
      _ ≤ 2 * Real.pi - |s| / (2 * n) := by linarith
  have ha := hend (hab.subset List.mem_cons_self)
  have hb := hend (hab.subset (List.mem_cons_of_mem _ List.mem_cons_self))
  have hmiddle := hreach (1 / (2 * n))
  rw [sub_self, mul_zero, Real.cos_zero, mul_one] at hmiddle
  have hreached : ((starRingEnd ℂ) e * (point c r θ s (1 / (2 * n)) - between a b u)).re
      = r - ((1 - u) * ((starRingEnd ℂ) e * (a - c)).re
        + u * ((starRingEnd ℂ) e * (b - c)).re) := by
    have hsplit : (starRingEnd ℂ) e * (point c r θ s (1 / (2 * n)) - between a b u)
        = (starRingEnd ℂ) e * (point c r θ s (1 / (2 * n)) - c)
          - ((1 - u : ℝ) * ((starRingEnd ℂ) e * (a - c))
            + (u : ℝ) * ((starRingEnd ℂ) e * (b - c))) := by
      unfold between
      push_cast
      ring
    rw [hsplit, sub_re, hmiddle, add_re, re_ofReal_mul, re_ofReal_mul]
  have hnorm : ‖(starRingEnd ℂ) e * (point c r θ s (1 / (2 * n)) - between a b u)‖ ≤ tol := by
    rw [norm_mul, RCLike.norm_conj, norm_exp_ofReal_mul_I, one_mul]
    exact hdist
  have hlast := (re_le_norm _).trans hnorm
  rw [hreached] at hlast
  nlinarith [mul_le_mul_of_nonneg_left ha (sub_nonneg.2 hu1), mul_le_mul_of_nonneg_left hb hu0]

/-- A radius the other way is half a turn. -/
theorem point_neg (c : ℂ) (r θ s t : ℝ) : point c (-r) θ s t = point c r (θ + Real.pi) s t := by
  have hhalf : exp ((θ + Real.pi + s * t : ℝ) * I) = -exp ((θ + s * t : ℝ) * I) := by
    rw [add_right_comm, ofReal_add (θ + s * t), add_mul, exp_add, exp_pi_mul_I, mul_neg_one]
  unfold point
  rw [hhalf, ofReal_neg, neg_mul, mul_neg]

theorem path_neg (c : ℂ) (r θ s : ℝ) (n : ℕ) : path c (-r) θ s n = path c r (θ + Real.pi) s n :=
  List.map_congr_left fun _ _ => point_neg c r θ s _

/-- **Chords of equal angle are as near as the height of one of them**, for an arc that goes
around no more than once. -/
theorem near_path_iff {c : ℂ} {r θ s tol : ℝ} {n : ℕ} (hn : 0 < n) (hs : |s| ≤ 2 * Real.pi) :
    (∀ t ∈ Set.Icc (0 : ℝ) 1, Near tol (path c r θ s n) (point c r θ s t))
      ↔ |r| * (1 - Real.cos (|s| / (2 * n))) ≤ tol := by
  have hone : (1 : ℝ) ≤ n := Nat.one_le_cast.2 hn
  constructor
  · intro hall
    have hmiddle := hall (1 / (2 * n)) ⟨by positivity, by
      rw [div_le_one (by positivity)]
      linarith⟩
    by_cases hr : 0 ≤ r
    · rw [abs_of_nonneg hr]
      exact height_le_of_near_of_nonneg hr hn hs hmiddle
    · rw [abs_of_neg (not_le.1 hr)]
      rw [← neg_neg r, path_neg, point_neg] at hmiddle
      exact height_le_of_near_of_nonneg (by linarith [not_le.1 hr]) hn hs hmiddle
  · intro hheight t ht
    refine near_path hn (hs.trans ?_) hheight ht
    exact le_mul_of_one_le_right Real.two_pi_pos.le hone

/-! ## Cubic curves -/

/-- A cubic curve, by its control points. -/
structure Cubic where
  /-- The start. -/
  p0 : ℂ
  /-- The point it leaves for. -/
  c1 : ℂ
  /-- The point it comes from. -/
  c2 : ℂ
  /-- The end. -/
  p1 : ℂ

namespace Cubic

/-- The point at a share of the way. -/
noncomputable def point (q : Cubic) (t : ℝ) : ℂ :=
  ((1 - t) ^ 3 : ℝ) * q.p0 + (3 * t * (1 - t) ^ 2 : ℝ) * q.c1
    + (3 * t ^ 2 * (1 - t) : ℝ) * q.c2 + (t ^ 3 : ℝ) * q.p1

/-- The first half. -/
noncomputable def left (q : Cubic) : Cubic where
  p0 := q.p0
  c1 := (q.p0 + q.c1) / 2
  c2 := ((q.p0 + q.c1) / 2 + (q.c1 + q.c2) / 2) / 2
  p1 := (((q.p0 + q.c1) / 2 + (q.c1 + q.c2) / 2) / 2
    + ((q.c1 + q.c2) / 2 + (q.c2 + q.p1) / 2) / 2) / 2

/-- The second half. -/
noncomputable def right (q : Cubic) : Cubic where
  p0 := q.left.p1
  c1 := ((q.c1 + q.c2) / 2 + (q.c2 + q.p1) / 2) / 2
  c2 := (q.c2 + q.p1) / 2
  p1 := q.p1

theorem point_left (q : Cubic) (t : ℝ) : q.left.point t = q.point (t / 2) := by
  unfold Cubic.point left
  push_cast
  ring

theorem point_right (q : Cubic) (t : ℝ) : q.right.point t = q.point ((1 + t) / 2) := by
  unfold Cubic.point right left
  push_cast
  ring

/-- **A curve is near its chord where its control points are.** -/
theorem nearChord_point {q : Cubic} {tol : ℝ} (h1 : NearChord tol q.p0 q.p1 q.c1)
    (h2 : NearChord tol q.p0 q.p1 q.c2) {t : ℝ} (ht : t ∈ Set.Icc (0 : ℝ) 1) :
    NearChord tol q.p0 q.p1 (q.point t) := by
  obtain ⟨u1, ⟨hu10, hu11⟩, hd1⟩ := h1
  obtain ⟨u2, ⟨hu20, hu21⟩, hd2⟩ := h2
  obtain ⟨ht0, ht1⟩ := ht
  have htol : 0 ≤ tol := (norm_nonneg _).trans hd1
  have hs : 0 ≤ 1 - t := sub_nonneg.2 ht1
  have hw1 : 0 ≤ 3 * t * (1 - t) ^ 2 := by positivity
  have hw2 : 0 ≤ 3 * t ^ 2 * (1 - t) := by positivity
  have hw3 : 0 ≤ t ^ 3 := by positivity
  have hw0 : 0 ≤ (1 - t) ^ 3 := by positivity
  have hsum : (1 - t) ^ 3 + 3 * t * (1 - t) ^ 2 + 3 * t ^ 2 * (1 - t) + t ^ 3 = 1 := by ring
  refine ⟨3 * t * (1 - t) ^ 2 * u1 + 3 * t ^ 2 * (1 - t) * u2 + t ^ 3, ⟨by positivity, ?_⟩, ?_⟩
  · nlinarith [mul_le_mul_of_nonneg_left hu11 hw1, mul_le_mul_of_nonneg_left hu21 hw2]
  · have hsplit : q.point t - between q.p0 q.p1
        (3 * t * (1 - t) ^ 2 * u1 + 3 * t ^ 2 * (1 - t) * u2 + t ^ 3)
        = (3 * t * (1 - t) ^ 2 : ℝ) * (q.c1 - between q.p0 q.p1 u1)
          + (3 * t ^ 2 * (1 - t) : ℝ) * (q.c2 - between q.p0 q.p1 u2) := by
      unfold Cubic.point between
      push_cast
      ring
    rw [hsplit]
    refine (norm_add_le _ _).trans ?_
    rw [norm_mul, norm_mul, norm_real, norm_real, Real.norm_of_nonneg hw1,
      Real.norm_of_nonneg hw2]
    nlinarith [mul_le_mul_of_nonneg_left hd1 hw1, mul_le_mul_of_nonneg_left hd2 hw2]

end Cubic

end ArcChords
