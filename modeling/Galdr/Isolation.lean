import Galdr.GeoBackend

/-!
# Isolation routing

To isolate copper, each of its polygons is offset outward, and the rings of the offset are
cut. Pass `n` offsets by the radius of the tool and `n` steps, so the later passes widen the
gap. If the passes are combined, the offsets of all polygons are merged before their rings
are taken; if not, the rings of each polygon are cut as they are.

The rings of combined passes run along the boundary of what lies within the offset of the
copper, and keep the radius of the tool from all of it. The rings of passes that are not
combined know one polygon each. The first pass keeps clear of the other polygons, if they are
a diameter apart. A later pass runs further out, and cuts into whatever polygon is there
(`isolate_isolated_iff`).
-/

namespace Galdr.Geo

open Metric Set

/-- Which way the cutter goes around. -/
inductive MillingDirection
  /-- With the feed. -/
  | climb
  /-- Against the feed. -/
  | conventional
  deriving DecidableEq

/-- How an outer ring is wound. -/
def MillingDirection.winding : MillingDirection → WindingDirection
  | .climb => .ccw
  | .conventional => .cw

/-- The parameters of an isolation. Distances are in millimetres. -/
structure IsolationParams where
  /-- The diameter of the tool. -/
  toolDiameter : ℚ
  /-- The number of passes. -/
  passes : ℕ
  /-- The share of a pass that overlaps the one before. -/
  overlap : ℚ
  /-- The rings of a pass are merged. -/
  combine : Bool
  /-- Which way the cutter goes. -/
  direction : MillingDirection
  /-- The join of the offset. -/
  join : JoinType
  /-- The limit of a mitre. -/
  miterLimit : ℚ
  deriving DecidableEq

namespace IsolationParams

instance : Inhabited IsolationParams where
  default :=
    { toolDiameter := 2 / 10, passes := 1, overlap := 0, combine := false, direction := .climb,
      join := .round, miterLimit := 2 }

/-- The offset of a pass. -/
def offsetFor (params : IsolationParams) (pass : ℕ) : ℚ :=
  let radius := params.toolDiameter / 2
  radius + pass * params.toolDiameter * (1 - params.overlap)

/-- The parameters are in their domain. -/
def validate (params : IsolationParams) : Except Error Unit :=
  if params.toolDiameter ≤ 0 then
    .error (.invalidGeometry "isolation tool diameter must be positive")
  else if params.passes = 0 then
    .error (.invalidGeometry "isolation needs at least one pass")
  else if ¬(0 ≤ params.overlap ∧ params.overlap < 1) then
    .error (.invalidGeometry "isolation overlap must be in [0, 1)")
  else .ok ()

end IsolationParams

/-- A ring to cut. -/
structure IsolationRing (R : Type) where
  /-- The pass that it belongs to. -/
  pass : ℕ
  /-- How far it is from the copper that it was offset from. -/
  offset : ℚ
  /-- The way that it is wound. -/
  winding : WindingDirection
  /-- The ring. -/
  geometry : R
  deriving DecidableEq

variable {R : Type}

/-- The rings of polygons, wound for a direction. -/
def pushRings (B : GeoBackend R) (polys : List (Polygon R)) (direction : WindingDirection)
    (pass : ℕ) (offset : ℚ) : List (IsolationRing R) :=
  polys.flatMap fun poly =>
    let normalized := B.normalizeWinding poly direction
    { pass, offset, winding := direction, geometry := normalized.exterior } ::
      normalized.interiors.map fun hole =>
        { pass, offset, winding := direction.reversed, geometry := hole }

/-- The rings of one pass, from the offsets of each polygon by pass. -/
def passRings (B : GeoBackend R) (params : IsolationParams)
    (perPoly : List (List (List (Polygon R)))) (pass : ℕ) :
    Except Error (List (IsolationRing R)) :=
  let direction := params.direction.winding
  let offset := params.offsetFor pass
  if params.combine then do
    let merged ← B.unionAll (perPoly.flatMap fun passes => passes.getD pass [])
    .ok (pushRings B merged direction pass offset)
  else
    .ok (perPoly.flatMap fun passes => pushRings B (passes.getD pass []) direction pass offset)

/-- The offsets of a polygon, by pass. -/
def offsets (B : GeoBackend R) (params : IsolationParams) (poly : Polygon R) :
    Except Error (List (List (Polygon R))) :=
  (List.range params.passes).mapM fun pass =>
    B.offset poly (params.offsetFor pass) params.join params.miterLimit

/-- The rings that isolate the copper. -/
def isolate (B : GeoBackend R) (copper : List (Polygon R)) (params : IsolationParams) :
    Except Error (List (IsolationRing R)) := do
  params.validate
  let perPoly ← copper.mapM (offsets B params)
  let rings ← (List.range params.passes).mapM (passRings B params perPoly)
  .ok rings.flatten

/-! ## What the rings should do -/

section Isolated

variable (M : Reading R)

/-- No two polygons are nearer than a distance. -/
def Apart (distance : ℚ) (copper : List (Polygon R)) : Prop :=
  copper.Pairwise fun p q => ∀ a ∈ M.solid p, ∀ b ∈ M.solid q, (distance : ℝ) ≤ dist a b

/-- The points that the rings of a pass run over. -/
def cut (rings : List (IsolationRing R)) (pass : ℕ) : Set Plane :=
  {x | ∃ ring ∈ rings, ring.pass = pass ∧ x ∈ M.trace ring.geometry}

/-- The rings isolate the copper. -/
structure Isolated (params : IsolationParams) (copper : List (Polygon R))
    (rings : List (IsolationRing R)) : Prop where
  /-- They keep the radius of the tool from each polygon. -/
  clear : ∀ ring ∈ rings, ∀ x ∈ M.trace ring.geometry, ∀ p ∈ copper, ∀ c ∈ M.solid p,
    ((params.toolDiameter / 2 : ℚ) : ℝ) ≤ dist x c
  /-- Those of a combined pass run along the boundary of what lies within the offset. -/
  follows : params.combine = true → ∀ pass < params.passes,
    cut M rings pass = frontier (cthickening (params.offsetFor pass : ℝ) (M.region copper))

/-- Each later offset of a polygon has passed by the disc of the tool about a point of
copper, or has not come to it. -/
def PassesClear (params : IsolationParams) (copper : List (Polygon R)) : Prop :=
  ∀ pass, 0 < pass → pass < params.passes →
    ∀ p ∈ copper, ∀ q ∈ copper, ∀ c ∈ M.solid q,
      ball c (params.toolDiameter / 2 : ℚ) ⊆
          cthickening (params.offsetFor pass : ℝ) (M.solid p) ∨
        ∀ a ∈ M.solid p, ((params.offsetFor pass + params.toolDiameter / 2 : ℚ) : ℝ) ≤ dist a c

end Isolated

/-! ## The parameters -/

theorem IsolationParams.validate_eq_ok {params : IsolationParams}
    (h : params.validate = .ok ()) :
    0 < params.toolDiameter ∧ 0 ≤ params.overlap ∧ params.overlap < 1 := by
  unfold validate at h
  split at h
  · cases h
  next hdia =>
  split at h
  · cases h
  split at h
  · cases h
  next hoverlap =>
  exact ⟨not_le.1 hdia, not_not.1 hoverlap⟩

theorem IsolationParams.offsetFor_zero (params : IsolationParams) :
    params.offsetFor 0 = params.toolDiameter / 2 := by
  simp [offsetFor]

/-- No pass is nearer to the copper than the radius of the tool. -/
theorem IsolationParams.radius_le_offsetFor {params : IsolationParams}
    (h : params.validate = .ok ()) (pass : ℕ) :
    params.toolDiameter / 2 ≤ params.offsetFor pass := by
  obtain ⟨hdia, -, hoverlap⟩ := validate_eq_ok h
  have hstep : 0 ≤ (pass : ℚ) * params.toolDiameter * (1 - params.overlap) :=
    mul_nonneg (mul_nonneg pass.cast_nonneg hdia.le) (sub_nonneg.2 hoverlap.le)
  exact le_add_of_nonneg_right hstep

/-! ## The rings of a pass -/

section Rings

variable {M : Reading R} {B : GeoBackend R}

theorem map_geometry_pushRings (polys : List (Polygon R)) (direction : WindingDirection)
    (pass : ℕ) (offset : ℚ) :
    (pushRings B polys direction pass offset).map IsolationRing.geometry =
      polys.flatMap fun poly => (B.normalizeWinding poly direction).rings := by
  rw [pushRings, List.map_flatMap]
  congr 1
  funext poly
  rw [List.map_cons, List.map_map]
  show _ :: List.map id _ = _
  rw [List.map_id]
  rfl

theorem pass_of_mem_pushRings {polys : List (Polygon R)} {direction : WindingDirection}
    {pass : ℕ} {offset : ℚ} {ring : IsolationRing R}
    (h : ring ∈ pushRings B polys direction pass offset) : ring.pass = pass := by
  obtain ⟨poly, -, hring⟩ := List.mem_flatMap.1 h
  rcases List.mem_cons.1 hring with rfl | hhole
  · rfl
  · obtain ⟨hole, -, rfl⟩ := List.mem_map.1 hhole
    rfl

/-- The rings of polygons run over what outlines the polygons. -/
theorem exists_mem_pushRings (hwinding : M.WindingExact B) {polys : List (Polygon R)}
    {direction : WindingDirection} {pass : ℕ} {offset : ℚ} {x : Plane} :
    (∃ ring ∈ pushRings B polys direction pass offset, x ∈ M.trace ring.geometry) ↔
      x ∈ M.outline polys := by
  have hmap {A C : Type} (f : A → C) (l : List A) (P : C → Prop) :
      (∃ a ∈ l, P (f a)) ↔ ∃ c ∈ l.map f, P c := by
    simp only [List.mem_map, exists_exists_and_eq_and]
  have htrace (poly : Polygon R) :
      (∃ g ∈ (B.normalizeWinding poly direction).rings, x ∈ M.trace g) ↔
        ∃ g ∈ poly.rings, x ∈ M.trace g := by
    rw [hmap M.trace _ (x ∈ ·), hmap M.trace _ (x ∈ ·), hwinding]
  rw [hmap IsolationRing.geometry _ (x ∈ M.trace ·), map_geometry_pushRings,
    Reading.mem_outline]
  simp only [List.mem_flatMap]
  constructor
  · rintro ⟨g, ⟨poly, hpoly, hg⟩, hx⟩
    exact ⟨poly, hpoly, (htrace poly).1 ⟨g, hg, hx⟩⟩
  · rintro ⟨poly, hpoly, h⟩
    obtain ⟨g, hg, hx⟩ := (htrace poly).2 h
    exact ⟨g, ⟨poly, hpoly, hg⟩, hx⟩

/-! ## The run of a pass -/

/-- The offsets of a polygon, by pass. -/
theorem offset_of_offsets {params : IsolationParams} {poly : Polygon R}
    {passes : List (List (Polygon R))} (h : offsets B params poly = .ok passes) {pass : ℕ}
    (hpass : pass < params.passes) :
    B.offset poly (params.offsetFor pass) params.join params.miterLimit =
      .ok (passes.getD pass []) := by
  have hget := getElem?_of_mapM h pass
  rw [List.getElem?_range hpass, Option.map_some] at hget
  cases hpolys : passes[pass]? with
  | none =>
    rw [hpolys] at hget
    cases hget
  | some polys =>
    rw [hpolys] at hget
    rw [List.getD_eq_getElem?_getD, hpolys]
    exact Option.some.inj hget

/-- The curve that a pass is to run over. -/
def passCurve (M : Reading R) (params : IsolationParams) (copper : List (Polygon R))
    (pass : ℕ) : Set Plane :=
  if params.combine then frontier (cthickening (params.offsetFor pass : ℝ) (M.region copper))
  else ⋃ p ∈ copper, frontier (cthickening (params.offsetFor pass : ℝ) (M.solid p))

theorem pass_of_mem_passRings {params : IsolationParams}
    {perPoly : List (List (List (Polygon R)))} {pass : ℕ} {rings : List (IsolationRing R)}
    (h : passRings B params perPoly pass = .ok rings) {ring : IsolationRing R}
    (hring : ring ∈ rings) : ring.pass = pass := by
  unfold passRings at h
  by_cases hcombine : params.combine
  · rw [if_pos hcombine] at h
    obtain ⟨merged, -, h⟩ := exists_ok_of_bind h
    cases h
    exact pass_of_mem_pushRings hring
  · rw [if_neg hcombine] at h
    cases h
    obtain ⟨passes, -, hring⟩ := List.mem_flatMap.1 hring
    exact pass_of_mem_pushRings hring

/-- With an exact backend, the rings of a pass run over its curve. -/
theorem exists_mem_passRings {params : IsolationParams} {copper : List (Polygon R)}
    (hoffset : M.OffsetExact B params.join params.miterLimit) (hunion : M.UnionExact B)
    (hwinding : M.WindingExact B) (hvalid : params.validate = .ok ())
    {perPoly : List (List (List (Polygon R)))}
    (hperPoly : copper.mapM (offsets B params) = .ok perPoly) {pass : ℕ}
    (hpass : pass < params.passes) {rings : List (IsolationRing R)}
    (h : passRings B params perPoly pass = .ok rings) {x : Plane} :
    (∃ ring ∈ rings, x ∈ M.trace ring.geometry) ↔ x ∈ passCurve M params copper pass := by
  have hradius : 0 ≤ params.offsetFor pass :=
    (half_pos (IsolationParams.validate_eq_ok hvalid).1).le.trans
      (IsolationParams.radius_le_offsetFor hvalid pass)
  have hfills (p : Polygon R) (passes : List (List (Polygon R)))
      (hp : offsets B params p = .ok passes) :
      M.Fills (passes.getD pass []) (cthickening (params.offsetFor pass : ℝ) (M.solid p)) :=
    hoffset _ _ _ hradius (offset_of_offsets hp hpass)
  unfold passRings at h
  unfold passCurve
  by_cases hcombine : params.combine
  · rw [if_pos hcombine] at h ⊢
    obtain ⟨merged, hmerged, h⟩ := exists_ok_of_bind h
    cases h
    have hregion : M.region (perPoly.flatMap fun passes => passes.getD pass []) =
        cthickening (params.offsetFor pass : ℝ) (M.region copper) := by
      rw [Reading.region_flatMap, Reading.region, Offsets.cthickening_biUnion_list]
      ext y
      simp only [mem_iUnion, exists_prop]
      exact exists_mem_iff_of_mapM hperPoly fun p _ passes hp => by
        rw [(hfills p passes hp).region]
    rw [exists_mem_pushRings hwinding, (hunion _ _ hmerged).outline, hregion]
  · rw [if_neg hcombine] at h ⊢
    cases h
    simp only [List.mem_flatMap, mem_iUnion, exists_prop]
    have hswap : (∃ ring, (∃ passes ∈ perPoly, ring ∈ pushRings B (passes.getD pass [])
          params.direction.winding pass (params.offsetFor pass)) ∧
          x ∈ M.trace ring.geometry) ↔
        ∃ passes ∈ perPoly, x ∈ M.outline (passes.getD pass []) := by
      constructor
      · rintro ⟨ring, ⟨passes, hpasses, hring⟩, hx⟩
        exact ⟨passes, hpasses, (exists_mem_pushRings hwinding).1 ⟨ring, hring, hx⟩⟩
      · rintro ⟨passes, hpasses, hx⟩
        obtain ⟨ring, hring, hx⟩ := (exists_mem_pushRings hwinding).2 hx
        exact ⟨ring, ⟨passes, hpasses, hring⟩, hx⟩
    rw [hswap]
    exact exists_mem_iff_of_mapM hperPoly fun p _ passes hp => by
      rw [(hfills p passes hp).outline]

end Rings

/-! ## The whole isolation -/

section Whole

variable {M : Reading R} {B : GeoBackend R} {params : IsolationParams}
  {copper : List (Polygon R)} {rings : List (IsolationRing R)}

theorem validate_of_isolate (h : isolate B copper params = .ok rings) :
    params.validate = .ok () := by
  obtain ⟨⟨⟩, hvalid, -⟩ := exists_ok_of_bind h
  exact hvalid

/-- A ring belongs to one of the passes. -/
theorem pass_lt_of_isolate (h : isolate B copper params = .ok rings) {ring : IsolationRing R}
    (hring : ring ∈ rings) : ring.pass < params.passes := by
  obtain ⟨⟨⟩, -, h⟩ := exists_ok_of_bind h
  obtain ⟨perPoly, -, h⟩ := exists_ok_of_bind h
  obtain ⟨byPass, hbyPass, h⟩ := exists_ok_of_bind h
  cases h
  obtain ⟨some, hsome, hring⟩ := List.mem_flatten.1 hring
  have hpass : (∃ some ∈ byPass, ring ∈ some) →
      ∃ pass ∈ List.range params.passes, pass = ring.pass ∧ ∃ some,
        passRings B params perPoly pass = .ok some ∧ ring ∈ some :=
    (exists_mem_iff_of_mapM hbyPass fun pass _ some hpass => by
      constructor
      · exact fun hmem => ⟨(pass_of_mem_passRings hpass hmem).symm, some, hpass, hmem⟩
      · rintro ⟨-, some', hsome', hmem⟩
        rw [hpass] at hsome'
        cases hsome'
        exact hmem).1
  obtain ⟨pass, hlt, rfl, -⟩ := hpass ⟨some, hsome, hring⟩
  exact List.mem_range.1 hlt

/-- With an exact backend, the rings of each pass run over the curve of the pass. -/
theorem cut_of_isolate (hoffset : M.OffsetExact B params.join params.miterLimit)
    (hunion : M.UnionExact B) (hwinding : M.WindingExact B)
    (h : isolate B copper params = .ok rings) {pass : ℕ} (hpass : pass < params.passes) :
    cut M rings pass = passCurve M params copper pass := by
  have hvalid := validate_of_isolate h
  obtain ⟨⟨⟩, -, h⟩ := exists_ok_of_bind h
  obtain ⟨perPoly, hperPoly, h⟩ := exists_ok_of_bind h
  obtain ⟨byPass, hbyPass, h⟩ := exists_ok_of_bind h
  cases h
  ext x
  have hrings : x ∈ cut M byPass.flatten pass ↔
      ∃ some ∈ byPass, ∃ ring ∈ some, ring.pass = pass ∧ x ∈ M.trace ring.geometry := by
    constructor
    · rintro ⟨ring, hring, hx⟩
      obtain ⟨some, hsome, hring⟩ := List.mem_flatten.1 hring
      exact ⟨some, hsome, ring, hring, hx⟩
    · rintro ⟨some, hsome, ring, hring, hx⟩
      exact ⟨ring, List.mem_flatten.2 ⟨some, hsome, hring⟩, hx⟩
  have hpasses : (∃ some ∈ byPass, ∃ ring ∈ some, ring.pass = pass ∧ x ∈ M.trace ring.geometry) ↔
      ∃ k ∈ List.range params.passes, k = pass ∧ x ∈ passCurve M params copper k := by
    refine exists_mem_iff_of_mapM hbyPass fun k hk some hsome => ?_
    rw [← exists_mem_passRings hoffset hunion hwinding hvalid hperPoly (List.mem_range.1 hk) hsome]
    constructor
    · rintro ⟨ring, hring, rfl, hx⟩
      exact ⟨(pass_of_mem_passRings hsome hring).symm, ring, hring, hx⟩
    · rintro ⟨rfl, ring, hring, hx⟩
      exact ⟨ring, hring, pass_of_mem_passRings hsome hring, hx⟩
  rw [hrings, hpasses]
  constructor
  · rintro ⟨k, -, rfl, hx⟩
    exact hx
  · exact fun hx => ⟨pass, List.mem_range.2 hpass, rfl, hx⟩

/-- The rings keep clear of a point if the curves of all passes do. -/
theorem forall_rings_iff (hoffset : M.OffsetExact B params.join params.miterLimit)
    (hunion : M.UnionExact B) (hwinding : M.WindingExact B)
    (h : isolate B copper params = .ok rings) {P : Plane → Prop} :
    (∀ ring ∈ rings, ∀ x ∈ M.trace ring.geometry, P x) ↔
      ∀ pass < params.passes, ∀ x ∈ passCurve M params copper pass, P x := by
  constructor
  · intro hrings pass hpass x hx
    rw [← cut_of_isolate hoffset hunion hwinding h hpass] at hx
    obtain ⟨ring, hring, -, hx⟩ := hx
    exact hrings ring hring x hx
  · intro hcurves ring hring x hx
    have hpass := pass_lt_of_isolate h hring
    refine hcurves ring.pass hpass x ?_
    rw [← cut_of_isolate hoffset hunion hwinding h hpass]
    exact ⟨ring, hring, rfl, hx⟩

/-- The curve of a combined pass keeps clear of all copper. -/
theorem le_dist_of_combined (hvalid : params.validate = .ok ()) (hcombine : params.combine = true)
    {pass : ℕ} {x c : Plane} (hx : x ∈ passCurve M params copper pass)
    (hc : c ∈ M.region copper) : ((params.toolDiameter / 2 : ℚ) : ℝ) ≤ dist x c := by
  rw [passCurve, if_pos hcombine] at hx
  have hradius : ((params.toolDiameter / 2 : ℚ) : ℝ) ≤ params.offsetFor pass :=
    Rat.cast_le.2 (IsolationParams.radius_le_offsetFor hvalid pass)
  exact hradius.trans (Offsets.le_dist_of_mem_frontier hx hc)

/-- The first pass has not come to the other polygons, if they are a diameter apart. -/
theorem first_pass_clear (hapart : Apart M params.toolDiameter copper) {p q : Polygon R} (hp : p ∈ copper) (hq : q ∈ copper)
    {c : Plane} (hc : c ∈ M.solid q) :
    ball c (params.toolDiameter / 2 : ℚ) ⊆
        cthickening (params.offsetFor 0 : ℝ) (M.solid p) ∨
      ∀ a ∈ M.solid p, ((params.offsetFor 0 + params.toolDiameter / 2 : ℚ) : ℝ) ≤ dist a c := by
  rw [IsolationParams.offsetFor_zero]
  by_cases hpq : p = q
  · subst hpq
    have hsub : ball c ((params.toolDiameter / 2 : ℚ) : ℝ) ⊆
        cthickening ((params.toolDiameter / 2 : ℚ) : ℝ) (M.solid p) :=
      ball_subset_closedBall.trans (closedBall_subset_cthickening hc _)
    exact .inl hsub
  · have hsymm : Std.Symm fun p q : Polygon R => ∀ a ∈ M.solid p, ∀ b ∈ M.solid q,
        (params.toolDiameter : ℝ) ≤ dist a b :=
      ⟨fun p q h a ha b hb => by
        rw [dist_comm]
        exact h b hb a ha⟩
    refine .inr fun a ha => ?_
    rw [add_halves]
    exact hapart.forall hp hq hpq a ha c hc

/-- An isolation by an exact backend isolates copper whose polygons are a diameter apart, if
and only if its passes are combined, or each later pass around a polygon has passed by the
other polygons or has not come to them. -/
theorem isolate_isolated_iff (hoffset : M.OffsetExact B params.join params.miterLimit)
    (hunion : M.UnionExact B) (hwinding : M.WindingExact B)
    (hapart : Apart M params.toolDiameter copper)
    (h : isolate B copper params = .ok rings) :
    Isolated M params copper rings ↔ params.combine = true ∨ PassesClear M params copper := by
  have hvalid := validate_of_isolate h
  have hdia := (IsolationParams.validate_eq_ok hvalid).1
  have hradius : (0 : ℝ) < (params.toolDiameter / 2 : ℚ) := Rat.cast_pos.2 (half_pos hdia)
  have hoffsetFor (pass : ℕ) : (0 : ℝ) ≤ params.offsetFor pass :=
    Rat.cast_nonneg.2 ((half_pos hdia).le.trans (IsolationParams.radius_le_offsetFor hvalid pass))
  have hclear := forall_rings_iff hoffset hunion hwinding h
    (P := fun x => ∀ p ∈ copper, ∀ c ∈ M.solid p,
      ((params.toolDiameter / 2 : ℚ) : ℝ) ≤ dist x c)
  have hfollows (hcombine : params.combine = true) (pass : ℕ) (hpass : pass < params.passes) :
      cut M rings pass = frontier (cthickening (params.offsetFor pass : ℝ) (M.region copper)) := by
    rw [cut_of_isolate hoffset hunion hwinding h hpass, passCurve, if_pos hcombine]
  by_cases hcombine : params.combine = true
  · have hisolated : Isolated M params copper rings :=
      { clear := hclear.2 fun pass _ x hx p hp c hc =>
          le_dist_of_combined hvalid hcombine hx (M.mem_region.2 ⟨p, hp, hc⟩)
        follows := hfollows }
    exact iff_of_true hisolated (.inl hcombine)
  · -- the curve of a pass keeps clear of a point if that of each polygon does
    have hpass (pass : ℕ) :
        (∀ x ∈ passCurve M params copper pass, ∀ q ∈ copper, ∀ c ∈ M.solid q,
          ((params.toolDiameter / 2 : ℚ) : ℝ) ≤ dist x c) ↔
        ∀ p ∈ copper, ∀ q ∈ copper, ∀ c ∈ M.solid q,
          ball c (params.toolDiameter / 2 : ℚ) ⊆
              cthickening (params.offsetFor pass : ℝ) (M.solid p) ∨
            ∀ a ∈ M.solid p,
              ((params.offsetFor pass + params.toolDiameter / 2 : ℚ) : ℝ) ≤ dist a c := by
      simp only [Rat.cast_add, ← Offsets.forall_frontier_le_dist_iff hradius (hoffsetFor pass),
        passCurve, if_neg hcombine, mem_iUnion, exists_prop]
      constructor
      · exact fun hx p hp q hq c hc x hxp => hx x ⟨p, hp, hxp⟩ q hq c hc
      · rintro hx x ⟨p, hp, hxp⟩ q hq c hc
        exact hx p hp q hq c hc x hxp
    constructor
    · intro hisolated
      exact .inr fun pass _ hlt => (hpass pass).1 (hclear.1 hisolated.clear pass hlt)
    · rintro (hcombined | hlater)
      · exact absurd hcombined hcombine
      · refine ⟨hclear.2 fun pass hlt => (hpass pass).2 fun p hp q hq c hc => ?_, hfollows⟩
        rcases pass.eq_zero_or_pos with rfl | hpos
        · exact first_pass_clear hapart hp hq hc
        · exact hlater pass hpos hlt p hp q hq c hc

end Whole

/-! ## Two pads, two passes -/

section Ideal

/-- A ring as the region inside of it. -/
def idealReading : Reading (Set Plane) where
  trace := frontier
  solid p := p.exterior \ ⋃ hole ∈ p.interiors, hole

/-- A region as a polygon. -/
def blob (s : Set Plane) : Polygon (Set Plane) := ⟨s, []⟩

/-- A backend that computes with regions. -/
noncomputable def ideal : GeoBackend (Set Plane) where
  offset p d _ _ := .ok [blob (cthickening d (idealReading.solid p))]
  unionAll polys := .ok [blob (idealReading.region polys)]
  difference polys polys' := .ok [blob (idealReading.region polys \ idealReading.region polys')]
  normalizeWinding p _ := p

theorem solid_blob (s : Set Plane) : idealReading.solid (blob s) = s := by
  simp [idealReading, blob]

theorem fills_blob (s : Set Plane) : idealReading.Fills [blob s] s where
  region := by rw [Reading.region, ← solid_blob s]; simp [blob, idealReading]
  outline := by simp [Reading.outline, Polygon.rings, blob, idealReading]

theorem offsetExact_ideal (join : JoinType) (limit : ℚ) :
    idealReading.OffsetExact ideal join limit := by
  rintro p d polys - h
  cases h
  exact fills_blob _

theorem unionExact_ideal : idealReading.UnionExact ideal := by
  rintro polys merged h
  cases h
  exact fills_blob _

theorem windingExact_ideal : idealReading.WindingExact ideal := fun _ _ => rfl

/-- A square pad about a point of the first axis. -/
def pad (x : ℝ) : Set Plane := {p | |p 0 - x| ≤ 1 ∧ |p 1| ≤ 1}

/-- Two pads, one millimetre apart. -/
def twoPads : List (Polygon (Set Plane)) := [blob (pad 0), blob (pad 3)]

/-- Two passes with a tool of one millimetre. -/
def twoPasses (combine : Bool) : IsolationParams :=
  { (default : IsolationParams) with toolDiameter := 1, passes := 2, combine }

theorem exists_isolate_ideal {copper : List (Polygon (Set Plane))} {params : IsolationParams}
    (hvalid : params.validate = .ok ()) : ∃ rings, isolate ideal copper params = .ok rings := by
  obtain ⟨perPoly, hperPoly⟩ : ∃ perPoly, copper.mapM (offsets ideal params) = .ok perPoly :=
    exists_mapM_eq_ok fun p _ => exists_mapM_eq_ok fun pass _ => ⟨_, rfl⟩
  obtain ⟨byPass, hbyPass⟩ : ∃ byPass,
      (List.range params.passes).mapM (passRings ideal params perPoly) = .ok byPass :=
    exists_mapM_eq_ok fun pass _ => by
      unfold passRings
      split
      · exact ⟨_, rfl⟩
      · exact ⟨_, rfl⟩
  refine ⟨byPass.flatten, ?_⟩
  unfold isolate
  rw [hvalid, hperPoly]
  show (do
    let rings ← (List.range params.passes).mapM (passRings ideal params perPoly)
    .ok rings.flatten) = Except.ok byPass.flatten
  rw [hbyPass]
  rfl

theorem validate_twoPasses (combine : Bool) : (twoPasses combine).validate = .ok () := by
  simp [twoPasses, IsolationParams.validate, default]

theorem abs_sub_le_dist (p q : Plane) (i : Fin 2) : |p i - q i| ≤ dist p q := by
  rw [dist_eq_norm]
  exact PiLp.norm_apply_le (p - q) i

theorem dist_axis (a b : ℝ) : dist (!₂[a, 0] : Plane) !₂[b, 0] = |a - b| := by
  rw [EuclideanSpace.dist_eq, Fin.sum_univ_two]
  simp [Real.dist_eq, Real.sqrt_sq_eq_abs]

theorem twoPads_apart : Apart idealReading 1 twoPads := by
  refine List.pairwise_pair.2 fun a ha b hb => ?_
  rw [solid_blob] at ha hb
  have ha0 := abs_le.1 ha.1
  have hb0 := abs_le.1 hb.1
  have hab := (neg_abs_le _).trans' (neg_le_neg (abs_sub_le_dist a b 0))
  rw [Rat.cast_one]
  linarith [ha0.2, hb0.1]

theorem nick_mem_pad : (!₂[5 / 2, 0] : Plane) ∈ pad 3 := by
  simp [pad, abs_le]
  norm_num

/-- The second pass around the first pad cuts the second pad at this point. -/
theorem nick_mem_frontier :
    (!₂[5 / 2, 0] : Plane) ∈ frontier (cthickening (3 / 2 : ℝ) (pad 0)) := by
  have hbound {x : Plane} (hx : x ∈ cthickening (3 / 2 : ℝ) (pad 0)) : x 0 ≤ 5 / 2 := by
    refine le_of_forall_pos_le_add fun ε hε => ?_
    obtain ⟨a, ha, hxa⟩ := mem_thickening_iff.1
      (cthickening_subset_thickening' (by positivity) (lt_add_of_pos_right (3 / 2) hε) _ hx)
    have hx0 := (le_abs_self _).trans (abs_sub_le_dist x a 0)
    have ha0 := abs_le.1 ha.1
    linarith [ha0.2]
  rw [isClosed_cthickening.frontier_eq]
  constructor
  · refine mem_cthickening_of_dist_le _ !₂[1, 0] _ _ ?_ ?_
    · simp [pad]
    · rw [dist_axis]
      norm_num
  · intro hint
    obtain ⟨ε, hε, hball⟩ := Metric.mem_nhds_iff.1 (mem_interior_iff_mem_nhds.1 hint)
    have hmem : !₂[5 / 2 + ε / 2, 0] ∈ ball (!₂[5 / 2, 0] : Plane) ε := by
      rw [mem_ball, dist_axis, add_sub_cancel_left, abs_of_pos (half_pos hε)]
      exact half_lt_self hε
    have hfar := hbound (hball hmem)
    simp at hfar
    linarith

/-- The second pass around the first pad cuts the second pad. -/
theorem not_isolated :
    idealReading.OffsetExact ideal .round 2 ∧ idealReading.UnionExact ideal ∧
      idealReading.WindingExact ideal ∧ Apart idealReading 1 twoPads ∧
      ∃ rings, isolate ideal twoPads (twoPasses false) = .ok rings ∧
        ¬Isolated idealReading (twoPasses false) twoPads rings := by
  obtain ⟨rings, hrings⟩ : ∃ rings, isolate ideal twoPads (twoPasses false) = .ok rings :=
    exists_isolate_ideal (validate_twoPasses false)
  refine ⟨offsetExact_ideal _ _, unionExact_ideal, windingExact_ideal, twoPads_apart, rings,
    hrings, fun hisolated => ?_⟩
  have hcurve : (!₂[5 / 2, 0] : Plane) ∈ passCurve idealReading (twoPasses false) twoPads 1 := by
    have hoffset : (((twoPasses false).offsetFor 1 : ℚ) : ℝ) = 3 / 2 := by
      simp [twoPasses, IsolationParams.offsetFor, default]
      norm_num
    have hseparate : (twoPasses false).combine ≠ true := Bool.false_ne_true
    rw [passCurve, if_neg hseparate, hoffset]
    refine mem_iUnion₂.2 ⟨blob (pad 0), List.mem_cons_self, ?_⟩
    rw [solid_blob]
    exact nick_mem_frontier
  rw [← cut_of_isolate (offsetExact_ideal _ _) unionExact_ideal windingExact_ideal hrings
    Nat.one_lt_two] at hcurve
  obtain ⟨ring, hring, -, hx⟩ := hcurve
  have hmem : (!₂[5 / 2, 0] : Plane) ∈ idealReading.solid (blob (pad 3)) := by
    rw [solid_blob]
    exact nick_mem_pad
  have hclear := hisolated.clear ring hring _ hx (blob (pad 3))
    (List.mem_cons_of_mem _ List.mem_cons_self) _ hmem
  rw [dist_self] at hclear
  norm_num [twoPasses] at hclear

/-- Combined, the same passes isolate the pads. -/
theorem combined_isolated : ∃ rings, isolate ideal twoPads (twoPasses true) = .ok rings ∧
    Isolated idealReading (twoPasses true) twoPads rings := by
  obtain ⟨rings, hrings⟩ : ∃ rings, isolate ideal twoPads (twoPasses true) = .ok rings :=
    exists_isolate_ideal (validate_twoPasses true)
  exact ⟨rings, hrings, (isolate_isolated_iff (offsetExact_ideal _ _) unionExact_ideal
    windingExact_ideal twoPads_apart hrings).2 (.inl rfl)⟩

end Ideal

end Galdr.Geo
