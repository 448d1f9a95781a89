import Galdr.ArcChords
import Galdr.BulgeArcs
import Galdr.ImportArc

/-!
# Flattening

Curves become chains of short chords. An arc takes as many as its tolerance asks for, from 8 to
512; a cubic curve is halved until its control points are close to the line of its chord, but no
more than 24 times.

An arc or a circle that would need more than 512 chords is coarser than the tolerance
(`near_flattenArc_iff`, `near_circlePolygon_iff`). The circle of a macro is flattened in the unit
of its file and scaled afterwards, and its tolerance is scaled with it: in inches all but the
smallest circles are too coarse (`near_flashCircle_inch_iff`).
-/

namespace Galdr.Import.Flatten

open ArcChords

/-! ## The flattening functions -/

section Functions

variable {K : Type} [Field K] [LinearOrder K] [FloorRing K] [Libm K]

/-- A filled circle. -/
def circlePolygon (cx cy r : K) : List (K × K) :=
  let n := arcSegmentCount r tau
  (List.range n).map fun i : ℕ =>
    let a := tau * (i : K) / (n : K)
    (cx + r * cosf a, cy + r * sinf a)

/-- The circle of a macro, in the unit of the file; it is scaled and placed where it is
flashed. -/
def flashCircle (unitScale diameter x y cx cy : K) : List (K × K) :=
  (circlePolygon x y (diameter / 2)).map fun p => (unitScale * p.1 + cx, unitScale * p.2 + cy)

/-- The smallest bulge that is an arc, and the shortest chord. -/
def flatEpsilon : K := 1 / 10 ^ 12

/-- The points of a bulge behind its start. -/
def flattenBulge (x0 y0 x1 y1 bulge : K) : List (K × K) :=
  let dx := x1 - x0
  let dy := y1 - y0
  if |bulge| < flatEpsilon ∨ hypot dx dy < flatEpsilon then [(x1, y1)]
  else
    let k := (1 - bulge * bulge) / (4 * bulge)
    let cx := (x0 + x1) / 2 + k * -dy
    let cy := (y0 + y1) / 2 + k * dx
    let r := hypot (cx - x0) (cy - y0)
    let startAngle := atan2f (y0 - cy) (x0 - cx)
    -- `bulge.atan()`
    let sweep := 4 * atan2f bulge 1
    flattenArc cx cy r startAngle sweep

/-- How often a curve is halved at most. -/
def bezierMaxDepth : ℕ := 24

/-- Both control points are close to the line of the chord, or to the start where there is
none. -/
def cubicIsFlat (p0 c1 c2 p1 : K × K) : Bool :=
  let tol : K := chordToleranceMm
  let dx := p1.1 - p0.1
  let dy := p1.2 - p0.2
  let chordSq := dx * dx + dy * dy
  if chordSq ≤ f64Epsilon then
    let d1 := hypot (c1.1 - p0.1) (c1.2 - p0.2)
    let d2 := hypot (c2.1 - p0.1) (c2.2 - p0.2)
    decide (d1 ≤ tol ∧ d2 ≤ tol)
  else
    let cross1 := (c1.1 - p0.1) * dy - (c1.2 - p0.2) * dx
    let cross2 := (c2.1 - p0.1) * dy - (c2.2 - p0.2) * dx
    let tolSq := tol * tol * chordSq
    decide (cross1 * cross1 ≤ tolSq ∧ cross2 * cross2 ≤ tolSq)

/-- Halfway between two points. -/
def mid (a b : K × K) : K × K := ((a.1 + b.1) / 2, (a.2 + b.2) / 2)

/-- The points strictly between the ends of a curve, where so many halvings are left. -/
def subdivideCubic : ℕ → K × K → K × K → K × K → K × K → List (K × K)
  | 0, _, _, _, _ => []
  | left + 1, p0, c1, c2, p1 =>
    if cubicIsFlat p0 c1 c2 p1 then []
    else
      let p01 := mid p0 c1
      let p12 := mid c1 c2
      let p23 := mid c2 p1
      let p012 := mid p01 p12
      let p123 := mid p12 p23
      let m := mid p012 p123
      subdivideCubic left p0 p01 p012 m ++ m :: subdivideCubic left m p123 p23 p1

/-- The points of a cubic curve behind its start. -/
def flattenCubic (p0 c1 c2 p1 : K × K) : List (K × K) :=
  subdivideCubic bezierMaxDepth p0 c1 c2 p1 ++ [p1]

/-- The points of a quadratic curve behind its start, as a cubic one. -/
def flattenQuad (p0 c p1 : K × K) : List (K × K) :=
  let c1 := (p0.1 + 2 / 3 * (c.1 - p0.1), p0.2 + 2 / 3 * (c.2 - p0.2))
  let c2 := (p1.1 + 2 / 3 * (c.1 - p1.1), p1.2 + 2 / 3 * (c.2 - p1.2))
  flattenCubic p0 c1 c2 p1

end Functions

/-! ## Arcs -/

/-- A point of the plane as a complex number. -/
def place (p : ℝ × ℝ) : ℂ := ⟨p.1, p.2⟩

/-- A point of a circle. -/
theorem place_circle (cx cy r a : ℝ) :
    place (cx + r * cosf a, cy + r * sinf a) = ⟨cx, cy⟩ + r * Complex.exp (a * Complex.I) := by
  apply Complex.ext
  · simp only [place, Complex.add_re, Complex.re_ofReal_mul, Complex.exp_ofReal_mul_I_re]
    rfl
  · simp only [place, Complex.add_im, Complex.im_ofReal_mul, Complex.exp_ofReal_mul_I_im]
    rfl

/-- How many chords an arc takes. -/
noncomputable def chordCount (r s : ℝ) : ℕ :=
  if r ≤ 0 ∨ |s| ≤ f64Epsilon then 1 else arcSegmentCount r |s|

theorem f64Epsilon_pos : (0 : ℝ) < f64Epsilon := by
  unfold f64Epsilon
  norm_num

theorem arcSegmentCount_bounds (r s : ℝ) : 8 ≤ arcSegmentCount r s ∧ arcSegmentCount r s ≤ 512 := by
  unfold arcSegmentCount
  dsimp only
  split
  case isTrue => exact ⟨le_rfl, by norm_num⟩
  case isFalse =>
    split
    case isTrue => exact ⟨by norm_num, le_rfl⟩
    case isFalse => exact ⟨le_max_left _ _, max_le (by norm_num) (min_le_right _ _)⟩

theorem chordCount_pos (r s : ℝ) : 0 < chordCount r s := by
  unfold chordCount
  split
  case isTrue => exact Nat.one_pos
  case isFalse => exact Nat.lt_of_lt_of_le (by norm_num) (arcSegmentCount_bounds r |s|).1

/-- **A flattened arc is a path of chords of equal angle.** -/
theorem path_flattenArc (cx cy r θ s : ℝ) :
    ArcChords.point ⟨cx, cy⟩ r θ s 0 :: (flattenArc cx cy r θ s).map place
      = ArcChords.path ⟨cx, cy⟩ r θ s (chordCount r s) := by
  unfold ArcChords.path
  rw [List.range_succ_eq_map, List.map_cons, List.map_map, Nat.cast_zero, zero_div]
  refine congrArg (_ :: ·) ?_
  unfold flattenArc chordCount
  by_cases hshort : r ≤ 0 ∨ |s| ≤ f64Epsilon
  · rw [if_pos hshort, if_pos hshort]
    show [place _] = [ArcChords.point _ _ _ _ _]
    rw [place_circle]
    unfold ArcChords.point
    simp
  · rw [if_neg hshort, if_neg hshort, List.map_map]
    refine List.map_congr_left fun k _ => ?_
    show place _ = ArcChords.point _ _ _ _ _
    rw [place_circle]
    unfold ArcChords.point
    rw [mul_div_assoc]

/-- **Where an arc is close enough to its chords**: where 512 of them are fine enough. A single
chord is drawn for an arc that turns by next to nothing, or has no radius. -/
def ArcFine (r s : ℝ) : Prop :=
  if r ≤ 0 ∨ |s| ≤ f64Epsilon then |r| * (1 - Real.cos (|s| / 2)) ≤ chordToleranceMm
  else r * (1 - Real.cos (|s| / (2 * 512))) ≤ chordToleranceMm

/-- The finer the chords, the closer. -/
theorem height_anti {r s : ℝ} {m n : ℕ} (hr : 0 ≤ r) (hm : 0 < m) (hmn : m ≤ n)
    (hs : |s| ≤ 2 * Real.pi * m) :
    r * (1 - Real.cos (|s| / (2 * n))) ≤ r * (1 - Real.cos (|s| / (2 * m))) := by
  have hm' : (0 : ℝ) < m := Nat.cast_pos.2 hm
  have hmn' : (m : ℝ) ≤ n := Nat.cast_le.2 hmn
  have hcos : Real.cos (|s| / (2 * m)) ≤ Real.cos (|s| / (2 * n)) := by
    refine Real.cos_le_cos_of_nonneg_of_le_pi (by positivity) ?_ ?_
    · rw [div_le_iff₀ (by positivity)]
      linarith
    · exact div_le_div_of_nonneg_left (abs_nonneg s) (by positivity) (by linarith)
  exact mul_le_mul_of_nonneg_left (by linarith) hr

/-- The chords of an arc are fine enough exactly where 512 would be. -/
theorem height_chordCount_iff {r s : ℝ} (hs : |s| ≤ 2 * Real.pi) :
    |r| * (1 - Real.cos (|s| / (2 * chordCount r s))) ≤ chordToleranceMm ↔ ArcFine r s := by
  unfold ArcFine chordCount
  by_cases hshort : r ≤ 0 ∨ |s| ≤ f64Epsilon
  · rw [if_pos hshort, if_pos hshort, Nat.cast_one, mul_one]
  · rw [if_neg hshort, if_neg hshort]
    push Not at hshort
    obtain ⟨hr, hturn⟩ := hshort
    rw [abs_of_pos hr]
    obtain ⟨hlow, hhigh⟩ := arcSegmentCount_bounds r |s|
    constructor
    · intro h
      have hcast : ((512 : ℕ) : ℝ) = 512 := Nat.cast_ofNat
      rw [← hcast]
      refine (height_anti hr.le (by omega) hhigh (hs.trans ?_)).trans h
      have hone : (1 : ℝ) ≤ arcSegmentCount r |s| := by exact_mod_cast le_trans (by norm_num) hlow
      exact le_mul_of_one_le_right Real.two_pi_pos.le hone
    · exact fun h => (arcSegmentCount_spec hr (f64Epsilon_pos.trans hturn) h).2

/-- **A flattened arc is within the tolerance exactly where 512 chords would be**, whatever
its radius, for an arc that goes around no more than once. -/
theorem near_flattenArc_iff {cx cy r θ s : ℝ} (hs : |s| ≤ 2 * Real.pi) :
    (∀ t ∈ Set.Icc (0 : ℝ) 1, Near chordToleranceMm
      (ArcChords.point ⟨cx, cy⟩ r θ s 0 :: (flattenArc cx cy r θ s).map place)
      (ArcChords.point ⟨cx, cy⟩ r θ s t)) ↔ ArcFine r s := by
  rw [path_flattenArc, near_path_iff (chordCount_pos r s) hs, height_chordCount_iff hs]

/-- It ends where the arc does. -/
theorem getLast_flattenArc (cx cy r θ s : ℝ) :
    ((flattenArc cx cy r θ s).map place).getLast? = some (ArcChords.point ⟨cx, cy⟩ r θ s 1) := by
  have hlast : (ArcChords.path ⟨cx, cy⟩ r θ s (chordCount r s)).getLast?
      = some (ArcChords.point ⟨cx, cy⟩ r θ s 1) := by
    have hne : ((chordCount r s : ℕ) : ℝ) ≠ 0 := Nat.cast_ne_zero.2 (chordCount_pos r s).ne'
    unfold ArcChords.path
    rw [List.range_succ, List.map_append, List.map_singleton, List.getLast?_concat, div_self hne]
  rw [← path_flattenArc] at hlast
  cases hpoints : (flattenArc cx cy r θ s).map place with
  | nil =>
    have hlength := congrArg List.length (path_flattenArc cx cy r θ s)
    rw [hpoints] at hlength
    unfold ArcChords.path at hlength
    rw [List.length_map, List.length_range] at hlength
    exact absurd (Nat.succ.inj hlength).symm (chordCount_pos r s).ne'
  | cons p points =>
    rw [hpoints, List.getLast?_cons_cons] at hlast
    exact hlast

theorem length_flattenArc (cx cy r θ s : ℝ) : (flattenArc cx cy r θ s).length ≤ 512 := by
  have hlength := congrArg List.length (path_flattenArc cx cy r θ s)
  unfold ArcChords.path at hlength
  rw [List.length_cons, List.length_map, List.length_map, List.length_range] at hlength
  rw [Nat.succ.inj hlength]
  unfold chordCount
  split
  case isTrue => norm_num
  case isFalse => exact (arcSegmentCount_bounds r |s|).2

/-! ## Circles -/

/-- A ring, closed. -/
def closed (points : List (ℝ × ℝ)) : List ℂ := points.map place ++ (points.map place).take 1

theorem abs_tau : |(tau : ℝ)| = 2 * Real.pi := abs_of_pos tau_pos

/-- **A flattened circle is a closed path of chords of equal angle.** -/
theorem closed_circlePolygon (cx cy r : ℝ) :
    closed (circlePolygon cx cy r)
      = ArcChords.path ⟨cx, cy⟩ r 0 tau (arcSegmentCount r tau) := by
  have hpos : 0 < arcSegmentCount r (tau : ℝ) :=
    Nat.lt_of_lt_of_le (by norm_num) (arcSegmentCount_bounds r tau).1
  have hne : ((arcSegmentCount r (tau : ℝ) : ℕ) : ℝ) ≠ 0 := Nat.cast_ne_zero.2 hpos.ne'
  have hpoint (k : ℕ) : place (cx + r * cosf (tau * (k : ℝ) / (arcSegmentCount r tau : ℕ)),
      cy + r * sinf (tau * (k : ℝ) / (arcSegmentCount r tau : ℕ)))
        = ArcChords.point ⟨cx, cy⟩ r 0 tau (k / (arcSegmentCount r tau : ℕ)) := by
    rw [place_circle]
    unfold ArcChords.point
    rw [zero_add, mul_div_assoc]
  have hpoints : (circlePolygon cx cy r).map place = (List.range (arcSegmentCount r tau)).map
      fun k : ℕ => ArcChords.point ⟨cx, cy⟩ r 0 tau (k / (arcSegmentCount r tau : ℕ)) := by
    unfold circlePolygon
    rw [List.map_map]
    exact List.map_congr_left fun k _ => hpoint k
  have hround : ArcChords.point ⟨cx, cy⟩ r 0 tau 1 = ArcChords.point ⟨cx, cy⟩ r 0 tau 0 := by
    unfold ArcChords.point
    rw [mul_one, mul_zero, add_zero, zero_add]
    congr 2
    show Complex.exp (((2 * Real.pi : ℝ) : ℂ) * Complex.I) = _
    push_cast
    rw [Complex.exp_two_pi_mul_I, zero_mul, Complex.exp_zero]
  have hfirst : (List.range (arcSegmentCount r (tau : ℝ))).take 1 = [0] := by
    rw [List.take_range, Nat.min_eq_left hpos]
    rfl
  unfold closed ArcChords.path
  rw [hpoints, ← List.map_take, hfirst, List.range_succ, List.map_append]
  refine congrArg (_ ++ ·) ?_
  rw [List.map_singleton, List.map_singleton, Nat.cast_zero, zero_div, div_self hne, hround]

/-- The circle of a macro is the circle, scaled and placed. -/
theorem closed_flashCircle (unitScale diameter x y cx cy : ℝ) :
    closed (flashCircle unitScale diameter x y cx cy)
      = ArcChords.path ⟨unitScale * x + cx, unitScale * y + cy⟩ (unitScale * (diameter / 2)) 0 tau
        (arcSegmentCount (diameter / 2) tau) := by
  have hplace (p : ℝ × ℝ) : place (unitScale * p.1 + cx, unitScale * p.2 + cy)
      = unitScale * place p + ⟨cx, cy⟩ := by
    apply Complex.ext <;> simp [place]
  have hclosed : closed (flashCircle unitScale diameter x y cx cy)
      = (closed (circlePolygon x y (diameter / 2))).map
        fun z : ℂ => (unitScale : ℂ) * z + ⟨cx, cy⟩ := by
    unfold closed flashCircle
    rw [List.map_append, List.map_take, List.map_map, List.map_map]
    have hcomp : place ∘ (fun p : ℝ × ℝ => (unitScale * p.1 + cx, unitScale * p.2 + cy))
        = (fun z : ℂ => (unitScale : ℂ) * z + ⟨cx, cy⟩) ∘ place := funext hplace
    rw [hcomp]
  rw [hclosed, closed_circlePolygon]
  unfold ArcChords.path
  rw [List.map_map]
  refine List.map_congr_left fun k _ => ?_
  show (unitScale : ℂ) * ArcChords.point _ _ _ _ _ + _ = ArcChords.point _ _ _ _ _
  unfold ArcChords.point
  have hcenter : (⟨unitScale * x + cx, unitScale * y + cy⟩ : ℂ)
      = unitScale * ⟨x, y⟩ + ⟨cx, cy⟩ := by
    apply Complex.ext <;> simp
  rw [hcenter]
  push_cast
  ring

/-- Where a circle is close enough to its chords. -/
def CircleFine (r : ℝ) : Prop :=
  if r ≤ 0 then |r| * (1 - Real.cos (Real.pi / 8)) ≤ chordToleranceMm
  else r * (1 - Real.cos (Real.pi / 512)) ≤ chordToleranceMm

/-- **Where the arc of a bulge is close enough to its chords**: a bulge or a chord that is next
to nothing counts as straight. -/
def BulgeFine (x0 y0 x1 y1 b : ℝ) : Prop :=
  let chord := Real.sqrt ((x1 - x0) * (x1 - x0) + (y1 - y0) * (y1 - y0))
  if |b| < flatEpsilon ∨ chord < flatEpsilon then |b| * chord / 2 ≤ chordToleranceMm
  else chord * (1 + b ^ 2) / (4 * |b|) * (1 - Real.cos (4 * Real.arctan |b| / (2 * 512)))
    ≤ chordToleranceMm

theorem tau_div (n : ℝ) : |(tau : ℝ)| / (2 * n) = Real.pi / n := by
  rw [abs_tau, mul_div_mul_left _ _ two_ne_zero]

/-- **A flattened circle is within the tolerance exactly where 512 chords would be.** -/
theorem near_circlePolygon_iff {cx cy r : ℝ} :
    (∀ t ∈ Set.Icc (0 : ℝ) 1, Near chordToleranceMm (closed (circlePolygon cx cy r))
      (ArcChords.point ⟨cx, cy⟩ r 0 tau t)) ↔ CircleFine r := by
  have hpos : 0 < arcSegmentCount r (tau : ℝ) :=
    Nat.lt_of_lt_of_le (by norm_num) (arcSegmentCount_bounds r tau).1
  rw [closed_circlePolygon, near_path_iff hpos abs_tau.le]
  unfold CircleFine
  by_cases hr : r ≤ 0
  · have hcount : arcSegmentCount r (tau : ℝ) = 8 := if_pos (Or.inl hr)
    rw [if_pos hr, hcount, tau_div]
    norm_num
  · have hlong : ¬(r ≤ 0 ∨ |(tau : ℝ)| ≤ f64Epsilon) := by
      rintro (hzero | hshort)
      · exact hr hzero
      · rw [abs_tau] at hshort
        unfold f64Epsilon at hshort
        linarith [Real.pi_gt_three]
    have hcount : chordCount r tau = arcSegmentCount r tau := by
      unfold chordCount
      rw [if_neg hlong, abs_of_pos tau_pos]
    have hfine : ArcFine r tau ↔ r * (1 - Real.cos (Real.pi / 512)) ≤ chordToleranceMm := by
      unfold ArcFine
      rw [if_neg hlong, tau_div]
    rw [if_neg hr, ← hfine, ← height_chordCount_iff abs_tau.le, hcount]

/-- A circle that takes more than the least number of chords needs them: one fewer is not
enough. -/
theorem chordTolerance_lt {r : ℝ} (hr : 0 < r) (hn : 9 ≤ arcSegmentCount r tau) :
    chordToleranceMm < r * (1 - Real.cos (Real.pi / ((arcSegmentCount r tau : ℕ) - 1 : ℝ))) := by
  have hpi := Real.pi_pos
  have htol : 0 < min (chordToleranceMm : ℝ) (r * (1 / 2)) :=
    lt_min (by unfold chordToleranceMm; norm_num) (by linarith)
  have hhalf : min (chordToleranceMm : ℝ) (r * (1 / 2)) / r ≤ 1 / 2 := by
    rw [div_le_iff₀ hr, mul_comm (1 / 2)]
    exact min_le_right _ _
  have hratio : 0 < min (chordToleranceMm : ℝ) (r * (1 / 2)) / r := div_pos htol hr
  set tol : ℝ := min chordToleranceMm (r * (1 / 2)) with htoldef
  have hn' : (9 : ℝ) ≤ (arcSegmentCount r tau : ℕ) := by exact_mod_cast hn
  -- the angle that the tolerance allows is less than that of one chord fewer
  have hangle : Real.arccos (1 - tol / r) < Real.pi / ((arcSegmentCount r tau : ℕ) - 1 : ℝ) := by
    have hbounds := (arcSegmentCount_bounds r tau).2
    have hbounds' : ((arcSegmentCount r tau : ℕ) : ℝ) ≤ 512 := by exact_mod_cast hbounds
    rw [lt_div_iff₀ (by linarith)]
    have hunfold : arcSegmentCount r tau = if 2 * Real.arccos (1 - tol / r) ≤ f64Epsilon then 512
        else max 8 (min ⌈tau / (2 * Real.arccos (1 - tol / r))⌉.toNat 512) := by
      have hlong : ¬(r ≤ 0 ∨ (tau : ℝ) ≤ 0) := by
        push Not
        exact ⟨hr, tau_pos⟩
      unfold arcSegmentCount
      rw [if_neg hlong]
      dsimp only
      rw [← htoldef, min_eq_left (by linarith : 1 - tol / r ≤ 1),
        max_eq_right (by linarith : -1 ≤ 1 - tol / r)]
      rfl
    by_cases hstep : 2 * Real.arccos (1 - tol / r) ≤ f64Epsilon
    · unfold f64Epsilon at hstep
      nlinarith [Real.pi_gt_three, Real.arccos_nonneg (1 - tol / r)]
    · rw [if_neg hstep] at hunfold
      have hstep0 : 0 < 2 * Real.arccos (1 - tol / r) := f64Epsilon_pos.trans (not_le.1 hstep)
      have hceil : arcSegmentCount r tau ≤ ⌈tau / (2 * Real.arccos (1 - tol / r))⌉.toNat := by
        omega
      have hlt : (((arcSegmentCount r tau - 1 : ℕ) : ℤ) : ℝ)
          < tau / (2 * Real.arccos (1 - tol / r)) :=
        Int.lt_ceil.1 (by omega)
      rw [lt_div_iff₀ hstep0] at hlt
      have hcast : (((arcSegmentCount r tau - 1 : ℕ) : ℤ) : ℝ)
          = ((arcSegmentCount r tau : ℕ) : ℝ) - 1 := by
        rw [Int.cast_natCast, Nat.cast_sub (by omega), Nat.cast_one]
      rw [hcast] at hlt
      have hlt' : (((arcSegmentCount r tau : ℕ) : ℝ) - 1) * (2 * Real.arccos (1 - tol / r))
          < 2 * Real.pi := hlt
      linarith
  have hsmall : Real.pi / ((arcSegmentCount r tau : ℕ) - 1 : ℝ) ≤ Real.pi / 8 :=
    div_le_div_of_nonneg_left hpi.le (by norm_num) (by linarith)
  have hcos : Real.cos (Real.pi / ((arcSegmentCount r tau : ℕ) - 1 : ℝ)) < 1 - tol / r := by
    have h := Real.cos_lt_cos_of_nonneg_of_le_pi (Real.arccos_nonneg (1 - tol / r))
      (by linarith) hangle
    rwa [Real.cos_arccos (by linarith) (by linarith)] at h
  -- the tolerance is not the half of the radius
  have hquadratic := Real.one_sub_sq_div_two_le_cos
    (x := Real.pi / ((arcSegmentCount r tau : ℕ) - 1 : ℝ))
  have hpos : 0 < Real.pi / ((arcSegmentCount r tau : ℕ) - 1 : ℝ) :=
    div_pos hpi (by linarith)
  have hwhole : tol = chordToleranceMm := by
    refine (min_choice _ _).resolve_right fun heq => ?_
    have hhalf' : tol / r = 1 / 2 := by
      rw [htoldef, heq, mul_div_assoc, mul_comm, div_mul_cancel₀ _ hr.ne']
    have hpi' := Real.pi_lt_four
    nlinarith
  rw [← hwhole]
  have hscaled : tol / r * r
      < (1 - Real.cos (Real.pi / ((arcSegmentCount r tau : ℕ) - 1 : ℝ))) * r :=
    mul_lt_mul_of_pos_right (by linarith) hr
  rw [div_mul_cancel₀ _ hr.ne'] at hscaled
  linarith

/-- One chord more is not much finer. -/
theorem height_succ {n : ℝ} (hn : 9 ≤ n) :
    64 / 81 * (1 - Real.cos (Real.pi / (n - 1))) ≤ 1 - Real.cos (Real.pi / n) := by
  have hpi := Real.pi_pos
  have hcos (x : ℝ) : 1 - Real.cos x = 2 * Real.sin (x / 2) ^ 2 := by
    have hdouble := Real.cos_two_mul (x / 2)
    have hunit := Real.sin_sq_add_cos_sq (x / 2)
    rw [show 2 * (x / 2) = x by ring] at hdouble
    linarith
  have hnonneg : 0 ≤ Real.sin (Real.pi / (n - 1) / 2) := by
    refine Real.sin_nonneg_of_nonneg_of_le_pi ?_ ?_
    · exact div_nonneg (div_nonneg hpi.le (by linarith)) zero_le_two
    · rw [div_div, div_le_iff₀ (by linarith)]
      nlinarith
  -- the sine is concave
  have hsin : 8 / 9 * Real.sin (Real.pi / (n - 1) / 2) ≤ Real.sin (Real.pi / n / 2) := by
    have hmem : Real.pi / (n - 1) / 2 ∈ Set.Icc 0 Real.pi := by
      constructor
      · exact div_nonneg (div_nonneg hpi.le (by linarith)) zero_le_two
      · rw [div_div, div_le_iff₀ (by linarith)]
        nlinarith
    have hshare : 0 ≤ (n - 1) / n ∧ 0 ≤ 1 / n :=
      ⟨div_nonneg (by linarith) (by linarith), div_nonneg zero_le_one (by linarith)⟩
    have hsum : (n - 1) / n + 1 / n = 1 := by
      rw [← add_div, sub_add_cancel, div_self (by linarith)]
    have hconcave := strictConcaveOn_sin_Icc.concaveOn.2 hmem
      ⟨le_rfl, hpi.le⟩ hshare.1 hshare.2 hsum
    have hplace : (n - 1) / n * (Real.pi / (n - 1) / 2) = Real.pi / n / 2 := by
      have hne : n - 1 ≠ 0 := by linarith
      have hne' : n ≠ 0 := by linarith
      field_simp
    rw [smul_eq_mul, smul_eq_mul, smul_eq_mul, smul_eq_mul, Real.sin_zero, mul_zero, add_zero,
      add_zero, hplace] at hconcave
    have hlarge : 8 / 9 ≤ (n - 1) / n := by
      rw [le_div_iff₀ (by linarith)]
      linarith
    exact (mul_le_mul_of_nonneg_right hlarge hnonneg).trans hconcave
  rw [hcos, hcos]
  nlinarith

/-- **The circle of a macro in inches is within the tolerance only where the least number of
chords is**: it takes as many as a circle of so many millimetres. -/
theorem near_flashCircle_inch_iff {diameter x y cx cy : ℝ} :
    (∀ t ∈ Set.Icc (0 : ℝ) 1, Near chordToleranceMm
      (closed (flashCircle (254 / 10) diameter x y cx cy))
      (ArcChords.point ⟨254 / 10 * x + cx, 254 / 10 * y + cy⟩ (254 / 10 * (diameter / 2)) 0 tau t))
      ↔ 254 / 10 * |diameter / 2| * (1 - Real.cos (Real.pi / 8)) ≤ chordToleranceMm := by
  have hbounds := (arcSegmentCount_bounds (diameter / 2) tau).1
  have hpos : 0 < arcSegmentCount (diameter / 2) (tau : ℝ) := by omega
  rw [closed_flashCircle, near_path_iff hpos abs_tau.le, tau_div, abs_mul,
    abs_of_pos (by norm_num : (0 : ℝ) < 254 / 10)]
  by_cases hcount : arcSegmentCount (diameter / 2) (tau : ℝ) = 8
  · rw [hcount, Nat.cast_ofNat]
  · have hn : 9 ≤ arcSegmentCount (diameter / 2) (tau : ℝ) := by omega
    have hr : 0 < diameter / 2 := by
      by_contra hnot
      exact hcount (if_pos (Or.inl (not_lt.1 hnot)))
    have hn' : (9 : ℝ) ≤ (arcSegmentCount (diameter / 2) tau : ℕ) := by exact_mod_cast hn
    have htol : (0 : ℝ) < chordToleranceMm := by
      unfold chordToleranceMm
      norm_num
    have hlarge := chordTolerance_lt hr hn
    have hfiner := height_succ hn'
    have hcoarse : 1 - Real.cos (Real.pi / (arcSegmentCount (diameter / 2) tau : ℕ))
        ≤ 1 - Real.cos (Real.pi / 8) := by
      have hcount : (0 : ℝ) ≤ (arcSegmentCount (diameter / 2) tau : ℕ) := Nat.cast_nonneg _
      have h := Real.cos_le_cos_of_nonneg_of_le_pi (div_nonneg Real.pi_pos.le hcount)
        (by linarith [Real.pi_pos] : Real.pi / 8 ≤ Real.pi)
        (div_le_div_of_nonneg_left Real.pi_pos.le (by norm_num) (by linarith))
      linarith
    rw [abs_of_pos hr]
    refine iff_of_false ?_ ?_
    · nlinarith
    · nlinarith

end Galdr.Import.Flatten
