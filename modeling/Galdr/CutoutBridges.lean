import Galdr.CutoutTabs

/-!
# What a cutout leaves of its bridges

A tab is there to leave a bridge of material across the kerf, as wide as the tab. The tool has a
radius, and the split leaves out of its path what the width of the tab is: the ends of the path
are at the bridge itself.

No point of the cut is within a radius of the bridge if and only if all of the rings that is so
near to it is in tabs, or is not cut at all (`clear_iff`). A tab with some of its ring beside it
that no tab has is cut into (`not_clear_of_free`).
-/

namespace Galdr.Eitri.Cutout

open Circular

/-! ## Clear of a bridge -/

section Statement

/-- The points that the middle of the tool goes over. -/
def cutPoints (paths : List (RingPath ℝ)) : Set (Point ℝ) :=
  {x | ∃ path ∈ paths, ∃ e ∈ pairs path.points, ∃ t : ℝ, 0 ≤ t ∧ t ≤ 1 ∧ x = towards e.1 e.2 t}

/-- A set of points is out of reach of the tool. -/
def Clear (paths : List (RingPath ℝ)) (radius : ℝ) (s : Set (Point ℝ)) : Prop :=
  ∀ x ∈ cutPoints paths, ∀ y ∈ s, radius ≤ Travel.distanceTo Travel.hypotenuse x y

/-- A tab is on an edge of a ring that is straight, and longer than the tab and the tool. -/
structure OnEdge (points : List (Point ℝ)) (toolDiameter tabWidth c a b : ℝ) : Prop where
  /-- The edge is straight. -/
  straight : Straight (ringAt Travel.hypotenuse points) a b
  /-- The tab starts on it. -/
  low : a ≤ c - tabWidth / 2
  /-- The tab ends on it. -/
  high : c + tabWidth / 2 ≤ b
  /-- It is long enough. -/
  long : tabWidth + toolDiameter < b - a

/-- The material across the kerf, as wide as the tab. -/
def bridge (points : List (Point ℝ)) (toolDiameter tabWidth c a b : ℝ) : Set (Point ℝ) :=
  let p := ringAt Travel.hypotenuse points a
  let q := ringAt Travel.hypotenuse points b
  let length := Travel.distanceTo Travel.hypotenuse p q
  {y | ∃ s t : ℝ, |s - c| ≤ tabWidth / 2 ∧ |t| ≤ toolDiameter / 2 ∧
    y = ⟨(ringAt Travel.hypotenuse points s).x - t * (q.y - p.y) / length,
      (ringAt Travel.hypotenuse points s).y + t * (q.x - p.x) / length⟩}

/-- The rings that a cutout cuts. -/
def cutRings {K : Type} (B : Geo.GeoBackend (List (Point K))) (params : CutoutParams)
    (outline : CutoutOutline K) : Except Geo.Error (List (List (Point K))) := do
  let sources ← outline.sources B
  let offsets ← sources.mapM fun src =>
    B.offset ⟨src.exterior, []⟩ (params.radius + params.margin) params.join params.miterLimit
  .ok (offsets.flatten.map fun poly =>
    (B.normalizeWinding poly params.direction.winding).exterior)

end Statement

/-! ## The paths of a run -/

section Run

variable {K : Type} [Field K] [LinearOrder K] [FloorRing K] {hypot : K → K → K}
  {B : Geo.GeoBackend (List (Point K))} {params : CutoutParams} {cancelled : ℕ → Bool}
  {outline : CutoutOutline K} {rings : List (List (Point K))}
  {result : CutoutResult K} {ring : List (Point K)} {path : RingPath K}

/-- A ring of an offset of a source. -/
def IsCutRing (B : Geo.GeoBackend (List (Point K))) (params : CutoutParams)
    (src : Geo.Polygon (List (Point K))) (ring : List (Point K)) : Prop :=
  ∃ polys, B.offset ⟨src.exterior, []⟩ (params.radius + params.margin) params.join
      params.miterLimit = .ok polys
    ∧ ∃ poly ∈ polys, ring = (B.normalizeWinding poly params.direction.winding).exterior

omit [Field K] [LinearOrder K] [FloorRing K] in
theorem mem_cutRings {sources : List (Geo.Polygon (List (Point K)))}
    (hsources : outline.sources B = .ok sources) (h : cutRings B params outline = .ok rings) :
    ring ∈ rings ↔ ∃ src ∈ sources, IsCutRing B params src ring := by
  obtain ⟨sources', hsources', h⟩ := Geo.exists_ok_of_bind h
  obtain rfl := Except.ok.inj (hsources.symm.trans hsources')
  obtain ⟨offsets, hoffsets, h⟩ := Geo.exists_ok_of_bind h
  obtain rfl := Except.ok.inj h
  have hiff := Geo.exists_mem_iff_of_mapM hoffsets
    (P := fun polys => ∃ poly ∈ polys,
      ring = (B.normalizeWinding poly params.direction.winding).exterior)
    (Q := fun src => IsCutRing B params src ring) (fun src _ polys hpolys => by
      unfold IsCutRing
      rw [hpolys]
      constructor
      · intro hmem
        exact ⟨polys, rfl, hmem⟩
      · rintro ⟨_, heq, hmem⟩
        obtain rfl := Except.ok.inj heq
        exact hmem)
  rw [← hiff, List.mem_map]
  constructor
  · rintro ⟨poly, hpoly, rfl⟩
    obtain ⟨polys, hpolys, hmem⟩ := List.mem_flatten.mp hpoly
    exact ⟨polys, hpolys, poly, hmem, rfl⟩
  · rintro ⟨polys, hpolys, poly, hmem, rfl⟩
    exact ⟨poly, List.mem_flatten.mpr ⟨polys, hpolys, hmem⟩, rfl⟩

/-- A ring of a source with its tabs gives a path. -/
def CutsPath (hypot : K → K → K) (params : CutoutParams) (ring : List (Point K))
    (path : RingPath K) : Prop :=
  ∃ centers, params.tabs.centers (ringPerimeter hypot ring) = .ok centers
    ∧ path ∈ splitRingAtTabs hypot ring centers params.tabWidth

theorem exists_mem_cutSource (path : RingPath K) {src : Geo.Polygon (List (Point K))} {look : ℕ}
    {cuts : List (List (RingPath K) × ℕ)}
    (h : cutSource hypot B params cancelled src look = .ok cuts) :
    (∃ polys, B.offset ⟨src.exterior, []⟩ (params.radius + params.margin) params.join
        params.miterLimit = .ok polys)
      ∧ ((∃ cut ∈ cuts, path ∈ cut.1)
        ↔ ∃ ring, IsCutRing B params src ring ∧ CutsPath hypot params ring path) := by
  obtain ⟨_, _, h⟩ := Geo.exists_ok_of_bind h
  obtain ⟨polys, hpolys, h⟩ := Geo.exists_ok_of_bind h
  refine ⟨⟨polys, hpolys⟩, ?_⟩
  have hiff := Geo.exists_mem_iff_of_mapM h (P := fun cut => path ∈ cut.1)
    (Q := fun poly => CutsPath hypot params
      (B.normalizeWinding poly params.direction.winding).exterior path) (fun poly _ cut hcut => by
      obtain ⟨centers, hcenters, hcut⟩ := Geo.exists_ok_of_bind hcut
      obtain rfl := Except.ok.inj hcut
      constructor
      · exact fun hmem => ⟨centers, hcenters, hmem⟩
      · rintro ⟨_, heq, hmem⟩
        obtain rfl := Except.ok.inj (hcenters.symm.trans heq)
        exact hmem)
  rw [hiff]
  constructor
  · rintro ⟨poly, hpoly, hcuts⟩
    exact ⟨_, ⟨polys, hpolys, poly, hpoly, rfl⟩, hcuts⟩
  · rintro ⟨_, ⟨_, heq, poly, hpoly, rfl⟩, hcuts⟩
    obtain rfl := Except.ok.inj (hpolys.symm.trans heq)
    exact ⟨poly, hpoly, hcuts⟩

/-- The paths of a cutout are those of its rings. -/
theorem exists_rings_of_cutout (h : cutout hypot B params cancelled outline = .ok result) :
    ∃ rings, cutRings B params outline = .ok rings
      ∧ ∀ path, path ∈ result.paths ↔ ∃ ring ∈ rings, CutsPath hypot params ring path := by
  obtain ⟨_, _, h⟩ := Geo.exists_ok_of_bind h
  obtain ⟨_, _, h⟩ := Geo.exists_ok_of_bind h
  obtain ⟨sources, hsources, h⟩ := Geo.exists_ok_of_bind h
  obtain ⟨cuts, hcuts, h⟩ := Geo.exists_ok_of_bind h
  obtain rfl := Except.ok.inj h
  have hoffset : ∀ src ∈ sources, ∃ polys, B.offset ⟨src.exterior, []⟩
      (params.radius + params.margin) params.join params.miterLimit = .ok polys := by
    intro src hsrc
    obtain ⟨i, hi⟩ := List.mem_iff_getElem?.mp hsrc
    obtain ⟨cut, _, hcut⟩ := Geo.exists_ok_of_mem_of_mapM hcuts
      (List.mem_zipIdx_iff_getElem?.mpr hi : (src, i) ∈ sources.zipIdx)
    exact (exists_mem_cutSource ⟨[]⟩ hcut).1
  obtain ⟨offsets, hoffsets⟩ := Geo.exists_mapM_eq_ok hoffset
  have hrings : cutRings B params outline = .ok (offsets.flatten.map fun poly =>
      (B.normalizeWinding poly params.direction.winding).exterior) := by
    unfold cutRings
    rw [hsources]
    exact congrArg (fun x => x >>= fun offsets => Except.ok (offsets.flatten.map fun poly =>
      (B.normalizeWinding poly params.direction.winding).exterior)) hoffsets
  refine ⟨_, hrings, fun path => ?_⟩
  have hiff := Geo.exists_mem_iff_of_mapM hcuts (P := fun cuts => ∃ cut ∈ cuts, path ∈ cut.1)
    (Q := fun e => ∃ ring, IsCutRing B params e.1 ring ∧ CutsPath hypot params ring path)
    (fun e _ cuts hcut => (exists_mem_cutSource path hcut).2)
  simp only [mem_cutRings hsources hrings]
  have hpaths : path ∈ cuts.flatten.flatMap Prod.fst ↔ ∃ c ∈ cuts, ∃ cut ∈ c, path ∈ cut.1 := by
    simp only [List.mem_flatMap, List.mem_flatten]
    constructor
    · rintro ⟨cut, ⟨c, hc, hcut⟩, hpath⟩
      exact ⟨c, hc, cut, hcut, hpath⟩
    · rintro ⟨c, hc, cut, hcut, hpath⟩
      exact ⟨cut, ⟨c, hc, hcut⟩, hpath⟩
  rw [hpaths, hiff]
  constructor
  · rintro ⟨e, he, ring, hring, hpath⟩
    exact ⟨ring, ⟨e.1, List.mem_of_getElem? (List.mem_zipIdx_iff_getElem?.mp he), hring⟩, hpath⟩
  · rintro ⟨ring, ⟨src, hsrc, hring⟩, hpath⟩
    obtain ⟨i, hi⟩ := List.mem_iff_getElem?.mp hsrc
    exact ⟨(src, i), List.mem_zipIdx_iff_getElem?.mpr hi, ring, hring, hpath⟩

end Run

/-! ## The reach of the tool -/

section Reach

variable {points : List (Point ℝ)} {centers : List ℝ} {tabWidth radius a b : ℝ}
  {runs : List (List ℝ)} {s : Set (Point ℝ)} {p q y : Point ℝ}

/-- A point in the complex plane. -/
def toComplex (p : Point ℝ) : ℂ := ⟨p.x, p.y⟩

theorem distanceTo_eq_norm (p q : Point ℝ) :
    Travel.distanceTo Travel.hypotenuse p q = ‖toComplex p - toComplex q‖ := by
  rw [Complex.norm_def, Complex.normSq_apply]
  rfl

/-- On the way from a point to another no point is farther than by shares. -/
theorem distanceTo_towards_le {t : ℝ} (h0 : 0 ≤ t) (h1 : t ≤ 1) :
    Travel.distanceTo Travel.hypotenuse (towards p q t) y
      ≤ (1 - t) * Travel.distanceTo Travel.hypotenuse p y
        + t * Travel.distanceTo Travel.hypotenuse q y := by
  have hshares : toComplex (towards p q t) - toComplex y
      = ((1 - t : ℝ) : ℂ) * (toComplex p - toComplex y)
        + ((t : ℝ) : ℂ) * (toComplex q - toComplex y) := by
    apply Complex.ext <;> simp [toComplex, towards] <;> ring
  rw [distanceTo_eq_norm, distanceTo_eq_norm, distanceTo_eq_norm, hshares]
  refine (norm_add_le _ _).trans_eq ?_
  rw [norm_mul, norm_mul, Complex.norm_of_nonneg (sub_nonneg.mpr h1), Complex.norm_of_nonneg h0]

/-- Where a way runs straight, part of the way is a share of it. -/
theorem Straight.mix {f : ℝ → Point ℝ} (h : Straight f a b) {u v t : ℝ} (hu : a ≤ u ∧ u ≤ b)
    (hv : a ≤ v ∧ v ≤ b) (h0 : 0 ≤ t) (h1 : t ≤ 1) :
    f (u + (v - u) * t) = towards (f u) (f v) t := by
  have hlow : a ≤ u + (v - u) * t := by nlinarith
  have hhigh : u + (v - u) * t ≤ b := by nlinarith
  rw [h.2 _ hlow hhigh, h.2 u hu.1 hu.2, h.2 v hv.1 hv.2, towards_towards]
  congr 1
  ring

theorem ringAt_add_mul (hP : 0 < ringPerimeter Travel.hypotenuse points) (u : ℝ) (k : ℤ) :
    ringAt Travel.hypotenuse points (u + k * ringPerimeter Travel.hypotenuse points)
      = ringAt Travel.hypotenuse points u := by
  unfold ringAt
  rw [wrap_add_mul hP]

theorem Arcs.lt_of_mem_pairs (harcs : Arcs Travel.hypotenuse points centers tabWidth runs)
    {run : List ℝ} (hrun : run ∈ runs) {e : ℝ × ℝ} (he : e ∈ pairs run) : e.1 < e.2 :=
  Circular.lt_of_mem_pairs ((List.pairwise_flatten.mp harcs.ordered).1 run hrun) he

/-- Paths along runs go over what the runs go over. -/
theorem Arcs.mem_cutPoints_iff (harcs : Arcs Travel.hypotenuse points centers tabWidth runs)
    {x : Point ℝ} :
    x ∈ cutPoints (runs.map fun run => ⟨run.map (ringAt Travel.hypotenuse points)⟩)
      ↔ ∃ run ∈ runs, ∃ e ∈ pairs run, ∃ u, e.1 ≤ u ∧ u ≤ e.2
        ∧ x = ringAt Travel.hypotenuse points u := by
  constructor
  · rintro ⟨path, hpath, e, he, t, h0, h1, rfl⟩
    obtain ⟨run, hrun, rfl⟩ := List.mem_map.mp hpath
    rw [pairs_map] at he
    obtain ⟨e, hmem, rfl⟩ := List.mem_map.mp he
    have hlt := harcs.lt_of_mem_pairs hrun hmem
    refine ⟨run, hrun, e, hmem, e.1 + (e.2 - e.1) * t, by nlinarith, by nlinarith, ?_⟩
    exact ((harcs.straight run hrun e hmem).mix ⟨le_rfl, hlt.le⟩ ⟨hlt.le, le_rfl⟩ h0 h1).symm
  · rintro ⟨run, hrun, e, he, u, hlow, hhigh, rfl⟩
    have hpos := sub_pos.mpr (harcs.lt_of_mem_pairs hrun he)
    refine ⟨_, List.mem_map_of_mem hrun, Prod.map (ringAt Travel.hypotenuse points)
      (ringAt Travel.hypotenuse points) e, ?_, (u - e.1) / (e.2 - e.1),
      div_nonneg (sub_nonneg.mpr hlow) hpos.le, (div_le_one hpos).mpr (by linarith),
      (harcs.straight run hrun e he).2 u hlow hhigh⟩
    rw [pairs_map]
    exact List.mem_map_of_mem he

/-- Inside an edge of a run no tab reaches. -/
theorem Arcs.lt_of_inside (harcs : Arcs Travel.hypotenuse points centers tabWidth runs)
    (hP : 0 < ringPerimeter Travel.hypotenuse points) (hw : 0 < tabWidth) {run : List ℝ}
    (hrun : run ∈ runs) {e : ℝ × ℝ} (he : e ∈ pairs run) {u : ℝ} (hlow : e.1 < u) (hhigh : u < e.2)
    {c : ℝ} (hc : c ∈ centers) :
    tabWidth / 2 < circularDistance u c (ringPerimeter Travel.hypotenuse points) := by
  by_contra hle
  obtain ⟨k, hk⟩ := (circularDistance_le_iff hP).mp (not_lt.mp hle)
  obtain ⟨hleft, hright⟩ := abs_le.mp hk
  -- some place of the edge is in the tab
  have hin : ∀ v, e.1 ≤ v → v ≤ e.2 →
      ¬|v - c - k * ringPerimeter Travel.hypotenuse points| < tabWidth / 2 := fun v hlow hhigh hlt =>
    (harcs.beside run hrun e he v hlow hhigh c hc).not_gt ((circularDistance_le hP v c k).trans_lt hlt)
  rcases lt_trichotomy u (c + k * ringPerimeter Travel.hypotenuse points) with hlt | heq | hgt
  · refine hin (min e.2 (c + k * ringPerimeter Travel.hypotenuse points))
      (le_min (by linarith) (by linarith)) (min_le_left _ _) (abs_lt.mpr ⟨?_, ?_⟩)
    · have := lt_min hhigh hlt
      linarith
    · have := min_le_right e.2 (c + k * ringPerimeter Travel.hypotenuse points)
      linarith
  · exact hin u hlow.le hhigh.le (abs_lt.mpr ⟨by linarith, by linarith⟩)
  · refine hin (max e.1 (c + k * ringPerimeter Travel.hypotenuse points))
      (le_max_left _ _) (max_le (by linarith) (by linarith)) (abs_lt.mpr ⟨?_, ?_⟩)
    · have := le_max_right e.1 (c + k * ringPerimeter Travel.hypotenuse points)
      linarith
    · have := max_lt hlow hgt
      linarith

/-- **Runs are clear of some points** if and only if all of the ring that is near to them is in
tabs. -/
theorem Arcs.clear_iff (harcs : Arcs Travel.hypotenuse points centers tabWidth runs)
    (hP : 0 < ringPerimeter Travel.hypotenuse points) (hw : 0 < tabWidth) :
    Clear (runs.map fun run => ⟨run.map (ringAt Travel.hypotenuse points)⟩) radius s
      ↔ ∀ u, (∃ y ∈ s, Travel.distanceTo Travel.hypotenuse
          (ringAt Travel.hypotenuse points u) y < radius) →
        ∃ c ∈ centers,
          circularDistance u c (ringPerimeter Travel.hypotenuse points) ≤ tabWidth / 2 := by
  constructor
  · rintro hclear u ⟨y, hy, hnear⟩
    by_contra hout
    push Not at hout
    obtain ⟨run, hrun, e, he, k, hlow, hhigh⟩ := harcs.covers u hout
    have hmem := harcs.mem_cutPoints_iff.mpr ⟨run, hrun, e, he, _, hlow, hhigh, rfl⟩
    rw [ringAt_add_mul hP] at hmem
    exact (hclear _ hmem y hy).not_gt hnear
  · intro hcond x hx y hy
    obtain ⟨run, hrun, e, he, u, hlow, hhigh, rfl⟩ := harcs.mem_cutPoints_iff.mp hx
    by_contra hnear
    have hlt := harcs.lt_of_mem_pairs hrun he
    have hstraight := harcs.straight run hrun e he
    -- a little farther in, the ring is still near, and no tab reaches there
    set m := (e.1 + e.2) / 2 with hm
    set d₀ := Travel.distanceTo Travel.hypotenuse (ringAt Travel.hypotenuse points u) y
    set d₁ := Travel.distanceTo Travel.hypotenuse (ringAt Travel.hypotenuse points m) y
    have hd₀ : 0 ≤ d₀ := Real.sqrt_nonneg _
    have hd₁ : 0 ≤ d₁ := Real.sqrt_nonneg _
    have hroom : 0 < radius - d₀ := by linarith
    set t := (radius - d₀) / (radius - d₀ + d₁) with ht
    have hsum : 0 < radius - d₀ + d₁ := by linarith
    have ht0 : 0 < t := div_pos hroom hsum
    have ht1 : t ≤ 1 := (div_le_one hsum).mpr (by linarith)
    have hshare : t * d₁ < radius - d₀ := by
      rw [ht, div_mul_eq_mul_div, div_lt_iff₀ hsum]
      nlinarith
    have hmix := hstraight.mix (u := u) (v := m) (t := t) ⟨hlow, hhigh⟩
      ⟨by linarith, by linarith⟩ ht0.le ht1
    obtain ⟨c, hc, hin⟩ := hcond (u + (m - u) * t) ⟨y, hy, by
      rw [hmix]
      refine (distanceTo_towards_le ht0.le ht1).trans_lt ?_
      show (1 - t) * d₀ + t * d₁ < radius
      nlinarith⟩
    refine (harcs.lt_of_inside hP hw hrun he ?_ ?_ hc).not_ge hin
    · nlinarith
    · nlinarith

end Reach

/-! ## Bridges -/

section Bridge

variable {B : Geo.GeoBackend (List (Point ℝ))} {params : CutoutParams} {cancelled : ℕ → Bool}
  {outline : CutoutOutline ℝ} {result : CutoutResult ℝ} {rings : List (List (Point ℝ))}
  {ring : List (Point ℝ)} {centers : List ℝ} {s : Set (Point ℝ)} {a b c : ℝ}

/-- A ring is cut at all: it is one, and its tabs take up less than there is of it. -/
def IsCut (params : CutoutParams) (ring : List (Point ℝ)) (centers : List ℝ) : Prop :=
  4 ≤ ring.length ∧ 0 < ringPerimeter Travel.hypotenuse ring
    ∧ (params.tabWidth : ℝ) * centers.length < ringPerimeter Travel.hypotenuse ring

/-- The tabs of a ring. -/
def TabsOf (params : CutoutParams) (ring : List (Point ℝ)) (centers : List ℝ) : Prop :=
  params.tabs.centers (ringPerimeter Travel.hypotenuse ring) = .ok centers

/-- All of the rings that are cut and near to some points is in tabs. -/
def NearInTabs (params : CutoutParams) (rings : List (List (Point ℝ))) (s : Set (Point ℝ)) : Prop :=
  ∀ ring ∈ rings, ∀ centers, TabsOf params ring centers → IsCut params ring centers →
    ∀ u, (∃ y ∈ s, Travel.distanceTo Travel.hypotenuse (ringAt Travel.hypotenuse ring u) y
        < (params.radius : ℝ)) →
      ∃ c ∈ centers, circularDistance u c (ringPerimeter Travel.hypotenuse ring)
        ≤ (params.tabWidth : ℝ) / 2

/-- Every ring has as many tabs. -/
theorem length_eq_of_tabsOf {ring' : List (Point ℝ)} {centers' : List ℝ}
    (h : TabsOf params ring centers) (h' : TabsOf params ring' centers') :
    centers.length = centers'.length := by
  unfold TabsOf TabPlacement.centers at h h'
  cases htabs : params.tabs with
  | count n =>
    rw [htabs] at h h'
    obtain rfl := Except.ok.inj h
    obtain rfl := Except.ok.inj h'
    simp
  | atFractions fractions =>
    rw [htabs] at h h'
    simp only at h h'
    split at h
    · cases h
    · rw [if_neg ‹_›] at h'
      obtain rfl := Except.ok.inj h
      obtain rfl := Except.ok.inj h'
      simp

/-- A ring that is not cut has no paths. -/
theorem splitRingAtTabs_of_not_isCut (hw : 0 < params.tabWidth) (hne : centers ≠ [])
    (h : ¬IsCut params ring centers) :
    splitRingAtTabs Travel.hypotenuse ring centers params.tabWidth = [] := by
  have hw' : (0 : ℝ) < params.tabWidth := by exact_mod_cast hw
  unfold splitRingAtTabs
  simp only
  by_cases hring : ring.length < 4 ∨ ringPerimeter Travel.hypotenuse ring ≤ 0
  · rw [if_pos hring]
  · push Not at hring
    have hmany : ringPerimeter Travel.hypotenuse ring ≤ (params.tabWidth : ℝ) * centers.length := by
      by_contra hlt
      exact h ⟨hring.1, hring.2, not_le.mp hlt⟩
    rw [if_neg (by push Not; exact hring), if_neg (by
      rw [List.isEmpty_iff]
      push Not
      exact ⟨hne, half_pos hw'⟩), if_pos hmany]

/-- **A cutout is clear of some points** if and only if all of the rings that are cut and near to
them is in tabs. -/
theorem clear_cutout_iff
    (hrun : cutout Travel.hypotenuse B params cancelled outline = .ok result)
    (hrings : cutRings B params outline = .ok rings) (hw : 0 < params.tabWidth)
    (hclosed : ∀ ring ∈ rings, ring.head? = ring.getLast?)
    (hapart : ∀ ring ∈ rings, ∀ centers, TabsOf params ring centers →
      MarksApart Travel.hypotenuse ring centers params.tabWidth)
    (htabs : ∀ ring ∈ rings, ∀ centers, TabsOf params ring centers → centers ≠ []) :
    Clear result.paths params.radius s ↔ NearInTabs params rings s := by
  have hw' : (0 : ℝ) < params.tabWidth := by exact_mod_cast hw
  obtain ⟨rings', hrings', hpaths⟩ := exists_rings_of_cutout hrun
  obtain rfl := Except.ok.inj (hrings.symm.trans hrings')
  have hsplit : Clear result.paths params.radius s ↔ ∀ ring ∈ rings, ∀ centers,
      TabsOf params ring centers →
      Clear (splitRingAtTabs Travel.hypotenuse ring centers params.tabWidth) params.radius s := by
    constructor
    · rintro hclear ring hring centers hcenters x ⟨path, hpath, hx⟩
      exact hclear x ⟨path, (hpaths path).mpr ⟨ring, hring, centers, hcenters, hpath⟩, hx⟩
    · rintro hclear x ⟨path, hpath, hx⟩
      obtain ⟨ring, hring, centers, hcenters, hmem⟩ := (hpaths path).mp hpath
      exact hclear ring hring centers hcenters x ⟨path, hmem, hx⟩
  rw [hsplit]
  refine forall₂_congr fun ring hring => forall₂_congr fun centers hcenters => ?_
  by_cases hcut : IsCut params ring centers
  · obtain ⟨hlen, hP, hfew⟩ := hcut
    obtain ⟨runs, harcs, heq⟩ := splits_of_tabs ⟨lawfulHypot_hypotenuse, hclosed ring hring, hP⟩
      hlen (htabs ring hring centers hcenters) hw' hfew (hapart ring hring centers hcenters)
    rw [heq, harcs.clear_iff hP hw']
    exact ⟨fun h _ => h, fun h => h ⟨hlen, hP, hfew⟩⟩
  · rw [splitRingAtTabs_of_not_isCut hw (htabs ring hring centers hcenters) hcut]
    constructor
    · exact fun _ h => absurd h hcut
    · rintro _ x ⟨path, hpath, _⟩
      cases hpath

/-- A tab has some of the edge beside it, where no tab is. -/
def FreeBeside (params : CutoutParams) (ring : List (Point ℝ)) (centers : List ℝ) (c b : ℝ) : Prop :=
  ∃ v, c + (params.tabWidth : ℝ) / 2 < v ∧ v ≤ b ∧
    ∀ u, c + (params.tabWidth : ℝ) / 2 < u → u < v → ∀ c' ∈ centers,
      (params.tabWidth : ℝ) / 2 < circularDistance u c' (ringPerimeter Travel.hypotenuse ring)

/-- What is beside the tab is near to its bridge. -/
theorem not_nearInTabs_of_free (hdiameter : 0 < params.toolDiameter) (hw : 0 < params.tabWidth)
    (hring : ring ∈ rings) (hcenters : TabsOf params ring centers)
    (hedge : OnEdge ring params.toolDiameter params.tabWidth c a b)
    (hcut : IsCut params ring centers) (hfree : FreeBeside params ring centers c b) :
    ¬NearInTabs params rings (bridge ring params.toolDiameter params.tabWidth c a b) := by
  obtain ⟨v, hv, hvb, hnone⟩ := hfree
  have hw' : (0 : ℝ) < params.tabWidth := by exact_mod_cast hw
  have hd' : (0 : ℝ) < params.toolDiameter := by exact_mod_cast hdiameter
  have hr : (0 : ℝ) < (params.radius : ℝ) := by
    exact_mod_cast half_pos hdiameter
  intro hnear
  set z := c + (params.tabWidth : ℝ) / 2 with hz
  set D := Travel.distanceTo Travel.hypotenuse (ringAt Travel.hypotenuse ring v)
    (ringAt Travel.hypotenuse ring z)
  have hD : 0 ≤ D := Real.sqrt_nonneg _
  -- a small share of the way from the end of the tab
  set t := min (1 / 2) ((params.radius : ℝ) / (D + 1) / 2) with ht
  have ht0 : 0 < t := lt_min (by norm_num) (by positivity)
  have ht1 : t < 1 := (min_le_left _ _).trans_lt (by norm_num)
  have hreach : t * D < params.radius := by
    have hle : t ≤ (params.radius : ℝ) / (D + 1) / 2 := min_le_right _ _
    have hmul : t * (D + 1) ≤ (params.radius : ℝ) / 2 := by
      calc t * (D + 1) ≤ (params.radius : ℝ) / (D + 1) / 2 * (D + 1) := by gcongr
        _ = (params.radius : ℝ) / 2 := by field_simp
    nlinarith
  have hmix := hedge.straight.mix (u := z) (v := v) (t := t) ⟨by linarith [hedge.low], hedge.high⟩
    ⟨by linarith [hedge.low], hvb⟩ ht0.le ht1.le
  have hmem : ringAt Travel.hypotenuse ring z
      ∈ bridge ring params.toolDiameter params.tabWidth c a b := by
    refine ⟨z, 0, ?_, ?_, ?_⟩
    · rw [hz, add_sub_cancel_left, abs_of_pos (half_pos hw')]
    · rw [abs_zero]
      exact (half_pos hd').le
    · simp
  have hclose : Travel.distanceTo Travel.hypotenuse
      (ringAt Travel.hypotenuse ring (z + (v - z) * t)) (ringAt Travel.hypotenuse ring z)
        < params.radius := by
    rw [hmix]
    refine (distanceTo_towards_le ht0.le ht1.le).trans_lt ?_
    have hzero : Travel.distanceTo Travel.hypotenuse (ringAt Travel.hypotenuse ring z)
        (ringAt Travel.hypotenuse ring z) = 0 := by
      rw [distanceTo_eq_norm, sub_self, norm_zero]
    rw [hzero, mul_zero, zero_add]
    exact hreach
  obtain ⟨c', hc', hin⟩ := hnear ring hring centers hcenters hcut _ ⟨_, hmem, hclose⟩
  exact (hnone _ (by nlinarith) (by nlinarith) c' hc').not_ge hin

/-- **The bridge of a tab is clear** if and only if all of the rings that are cut and near to it is
in tabs. It is not where the edge goes on beside the tab and no tab is. -/
theorem bridge_clear_iff
    (hrun : cutout Travel.hypotenuse B params cancelled outline = .ok result)
    (hrings : cutRings B params outline = .ok rings) (hw : 0 < params.tabWidth)
    (hclosed : ∀ ring ∈ rings, ring.head? = ring.getLast?)
    (hapart : ∀ ring ∈ rings, ∀ centers, TabsOf params ring centers →
      MarksApart Travel.hypotenuse ring centers params.tabWidth)
    (hring : ring ∈ rings) (hcenters : TabsOf params ring centers) (hc : c ∈ centers)
    (hedge : OnEdge ring params.toolDiameter params.tabWidth c a b) :
    (Clear result.paths params.radius
        (bridge ring params.toolDiameter params.tabWidth c a b)
      ↔ NearInTabs params rings (bridge ring params.toolDiameter params.tabWidth c a b))
    ∧ (IsCut params ring centers → FreeBeside params ring centers c b →
      ¬Clear result.paths params.radius
        (bridge ring params.toolDiameter params.tabWidth c a b)) := by
  have htabs : ∀ ring ∈ rings, ∀ centers, TabsOf params ring centers → centers ≠ [] := by
    rintro ring' _ centers' hcenters' rfl
    have hlength := length_eq_of_tabsOf hcenters hcenters'
    obtain rfl := List.length_eq_zero_iff.mp hlength
    cases hc
  have hiff := clear_cutout_iff (s := bridge ring params.toolDiameter params.tabWidth c a b)
    hrun hrings hw hclosed hapart htabs
  refine ⟨hiff, fun hcut hfree hclear => ?_⟩
  have hdiameter : 0 < params.toolDiameter := by
    obtain ⟨_, hvalid, _⟩ := Geo.exists_ok_of_bind hrun
    by_contra hle
    unfold CutoutParams.validate at hvalid
    rw [if_pos (not_lt.mp hle)] at hvalid
    cases hvalid
  exact not_nearInTabs_of_free hdiameter hw hring hcenters hedge hcut hfree (hiff.mp hclear)

end Bridge

/-! ### A square board -/

section Square

/-- A backend that has a square for every offset. -/
def squareBackend (side : ℝ) : Geo.GeoBackend (List (Point ℝ)) :=
  { offset := fun _ _ _ _ => .ok [⟨square side, []⟩], unionAll := .ok,
    difference := fun polys _ => .ok polys, normalizeWinding := fun poly _ => poly }

/-- One tab in the middle of the first side, as wide as the tool. -/
def squareParams : CutoutParams :=
  { CutoutParams.default with
    toolDiameter := 2, tabs := .atFractions [1 / 8], direction := .climb, join := .miter }

theorem centers_square (perimeter : ℝ) :
    squareParams.tabs.centers perimeter = .ok [((1 / 8 : ℚ) : ℝ) * perimeter] := by
  have hin : ([1 / 8].any fun f : ℚ => !(decide (0 ≤ f) && decide (f < 1))) = false := by
    decide +kernel
  unfold squareParams TabPlacement.centers
  simp only
  rw [if_neg (by rw [hin]; decide)]
  rfl

theorem cutout_square : ∃ result, cutout Travel.hypotenuse (squareBackend 10) squareParams
    (fun _ => false) (.rectangle ⟨1, 1⟩ ⟨9, 9⟩) = .ok result := by
  have hvalid : squareParams.validate = .ok () := by
    unfold CutoutParams.validate
    rw [if_neg (by decide), if_neg (by decide), if_neg (by decide)]
  have hring : cutRing Travel.hypotenuse (squareBackend 10) squareParams ⟨square 10, []⟩
      = .ok (splitRingAtTabs Travel.hypotenuse (square 10)
        [((1 / 8 : ℚ) : ℝ) * ringPerimeter Travel.hypotenuse (square 10)]
        squareParams.tabWidth, 1) := by
    exact congrArg (fun x => x >>= fun centers => Except.ok
      (splitRingAtTabs Travel.hypotenuse (square 10) centers squareParams.tabWidth,
        centers.length)) (centers_square _)
  have hsource : cutSource Travel.hypotenuse (squareBackend 10) squareParams (fun _ => false)
      (rectangle 1 1 9 9) 1 = .ok [(splitRingAtTabs Travel.hypotenuse (square 10)
        [((1 / 8 : ℚ) : ℝ) * ringPerimeter Travel.hypotenuse (square 10)]
        squareParams.tabWidth, 1)] := by
    show ([⟨square 10, []⟩].mapM (cutRing Travel.hypotenuse (squareBackend 10) squareParams)) = _
    rw [List.mapM_cons, hring]
    rfl
  have hcuts : ([(rectangle 1 1 9 9, 0)] : List (Geo.Polygon (List (Point ℝ)) × ℕ)).mapM
      (fun e => cutSource Travel.hypotenuse (squareBackend 10) squareParams (fun _ => false) e.1
        (e.2 + 1)) = .ok [[(splitRingAtTabs Travel.hypotenuse (square 10)
          [((1 / 8 : ℚ) : ℝ) * ringPerimeter Travel.hypotenuse (square 10)]
          squareParams.tabWidth, 1)]] := by
    simp only [List.mapM_cons, Nat.zero_add, hsource]
    rfl
  unfold cutout
  rw [hvalid]
  exact ⟨_, congrArg (fun x : Except Geo.Error (List (List (List (RingPath ℝ) × ℕ))) =>
    x >>= fun cuts => Except.ok (⟨cuts.flatten.flatMap Prod.fst, (cuts.flatten.map Prod.snd).sum,
      squareParams.direction⟩ : CutoutResult ℝ)) hcuts⟩

theorem cutRings_square : cutRings (squareBackend 10) squareParams
    (.rectangle ⟨1, 1⟩ ⟨9, 9⟩) = .ok [square 10] := rfl

theorem tabsOf_square : TabsOf squareParams (square 10) [5] := by
  unfold TabsOf
  rw [ringPerimeter_square, centers_square]
  norm_num

theorem onEdge_square : OnEdge (square 10) squareParams.toolDiameter squareParams.tabWidth 5 0 10 := by
  have hd : squareParams.toolDiameter = 2 := rfl
  have hw : squareParams.tabWidth = 2 := rfl
  rw [hd, hw]
  refine ⟨isRing_square.ringAt_between (by norm_num) ?_, by norm_num, by norm_num, by norm_num⟩
  rw [cumulativeArclengths_square, ringPerimeter_square]
  intro v hv k hk
  -- the vertices are whole multiples of ten apart
  obtain ⟨j, rfl⟩ : ∃ j : ℤ, v = 10 * j := by
    simp only [List.mem_cons, List.not_mem_nil, or_false] at hv
    rcases hv with rfl | rfl | rfl | rfl | rfl
    · exact ⟨0, by norm_num⟩
    · exact ⟨1, by norm_num⟩
    · exact ⟨2, by norm_num⟩
    · exact ⟨3, by norm_num⟩
    · exact ⟨4, by norm_num⟩
  obtain ⟨hlow, hhigh⟩ := hk
  have h0 : (0 : ℝ) < ((j + 4 * k : ℤ) : ℝ) := by
    push_cast
    linarith
  have h1 : ((j + 4 * k : ℤ) : ℝ) < 1 := by
    push_cast
    linarith
  have h0' : 0 < j + 4 * k := by exact_mod_cast h0
  have h1' : j + 4 * k < 1 := by exact_mod_cast h1
  omega

theorem eq_of_tabsOf_square {centers : List ℝ} (h : TabsOf squareParams (square 10) centers) :
    centers = [5] := Except.ok.inj (h.symm.trans tabsOf_square)

theorem marksApart_squareParams : ∀ ring ∈ [square 10], ∀ centers,
    TabsOf squareParams ring centers →
      MarksApart Travel.hypotenuse ring centers squareParams.tabWidth := by
  intro ring hring centers hcenters
  obtain rfl := List.mem_singleton.mp hring
  obtain rfl := eq_of_tabsOf_square hcenters
  have hw : (squareParams.tabWidth : ℝ) = 2 := by
    norm_num [squareParams, CutoutParams.default]
  rw [hw]
  exact marksApart_square

theorem bridge_clear_iff_square : ∃ result, cutout Travel.hypotenuse (squareBackend 10)
      squareParams (fun _ => false) (.rectangle ⟨1, 1⟩ ⟨9, 9⟩) = .ok result
    ∧ (Clear result.paths squareParams.radius
        (bridge (square 10) squareParams.toolDiameter squareParams.tabWidth 5 0 10)
      ↔ NearInTabs squareParams [square 10]
        (bridge (square 10) squareParams.toolDiameter squareParams.tabWidth 5 0 10)) := by
  obtain ⟨result, hrun⟩ := cutout_square
  exact ⟨result, hrun, (bridge_clear_iff hrun cutRings_square (by decide)
    (fun ring hring => by
      obtain rfl := List.mem_singleton.mp hring
      rfl) marksApart_squareParams List.mem_cons_self tabsOf_square List.mem_cons_self
    onEdge_square).1⟩

/-- The tool goes over the bridge of that tab. -/
theorem not_clear_square : ∃ result, cutout Travel.hypotenuse (squareBackend 10) squareParams
      (fun _ => false) (.rectangle ⟨1, 1⟩ ⟨9, 9⟩) = .ok result
    ∧ ¬Clear result.paths squareParams.radius
      (bridge (square 10) squareParams.toolDiameter squareParams.tabWidth 5 0 10) := by
  obtain ⟨result, hrun⟩ := cutout_square
  refine ⟨result, hrun, fun hclear => ?_⟩
  have hw : (squareParams.tabWidth : ℝ) = 2 := by
    norm_num [squareParams, CutoutParams.default]
  refine not_nearInTabs_of_free (b := 10) (by decide) (by decide) List.mem_cons_self tabsOf_square
    onEdge_square ⟨by decide, isRing_square.perimeter_pos, ?_⟩ ⟨10, ?_, le_rfl, ?_⟩
    ((clear_cutout_iff hrun cutRings_square (by decide) (fun ring hring => by
      obtain rfl := List.mem_singleton.mp hring
      rfl) marksApart_squareParams (fun ring hring centers hcenters => by
      obtain rfl := List.mem_singleton.mp hring
      obtain rfl := eq_of_tabsOf_square hcenters
      exact List.cons_ne_nil _ _)).mp hclear)
  · rw [hw, ringPerimeter_square]
    norm_num
  · rw [hw]
    norm_num
  · rw [hw]
    intro u hlow hhigh c hc
    obtain rfl := List.mem_singleton.mp hc
    have habs : |u - 5| = u - 5 := abs_of_pos (by linarith)
    rw [ringPerimeter_square, circularDistance_of_lt (by rw [habs]; linarith), habs, lt_min_iff]
    constructor <;> linarith

end Square

end Galdr.Eitri.Cutout
