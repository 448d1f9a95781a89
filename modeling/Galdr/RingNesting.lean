import Galdr.GerberRegion
import Galdr.NestedSets

/-!
# Holes and the rings around them

An offset comes back as a list of rings: outer rings run counter-clockwise and have a positive
area, holes run clockwise and have a negative one. `pathsToMultipolygon` gives each hole to the
smallest outer ring around one point inside the hole. Where an island lies in the hole, and
around that point, the hole is given to the island.

For rings that nest, each hole goes to its owner exactly if the point that it is probed with lies
in no island within it (`preserved_paths_iff`); and the polygons of a Gerber region preserve the
rings exactly if no contour is probed within one that lies in it (`preserved_region_iff`).
-/

namespace Galdr.Gerber

open Geo (Polygon)
open Painting

/-- The rings of an offset, in integer steps. -/
abbrev Paths := List (List (ℤ × ℤ))

/-- The steps of a millimetre. -/
def integerScale : ℕ := 1000000

section Rings

variable {K : Type} [Field K] [LinearOrder K]

/-- A point, in millimetres. -/
def toCoord (p : ℤ × ℤ) : Coord K :=
  ((p.1 : K) / (integerScale : K), (p.2 : K) / (integerScale : K))

/-- A ring, in millimetres. -/
def toRing (path : List (ℤ × ℤ)) : Ring K := path.map toCoord

/-- The signed area of a ring, positive if it runs counter-clockwise. -/
def signedArea (ring : Ring K) : K :=
  if ring.length < 3 then 0
  else (ring.zip (ring.rotate 1)).foldl
    (fun acc e => acc + (e.1.1 * e.2.2 - e.2.1 * e.1.2)) 0 / ((2 : ℕ) : K)

variable (K) in
/-- The step of the floating-point numbers at one. -/
def epsilon : K := 1 / ((2 ^ 52 : ℕ) : K)

variable (contains : Ring K → Coord K → Bool) (interiorPoint : Ring K → Option (Coord K))

/-- A hole joins the first polygon whose outer ring is around a point. -/
def pushHole (probe : Coord K) (hole : Ring K) :
    List (Polygon (Ring K)) → List (Polygon (Ring K))
  | [] => []
  | p :: rest =>
    if contains p.exterior probe then { p with interiors := p.interiors ++ [hole] } :: rest
    else p :: pushHole probe hole rest

/-- A hole joins its polygon; without a point inside it is dropped. -/
def addHole (assembled : List (Polygon (Ring K))) (hole : Ring K) : List (Polygon (Ring K)) :=
  match interiorPoint hole with
  | none => assembled
  | some probe => pushHole contains probe hole assembled

/-- The rings that are not degenerate. -/
def keptRings (paths : Paths) : List (Ring K) :=
  (paths.map toRing).filter fun ring => ¬|signedArea ring| < epsilon K

/-- The outer rings, the smallest first. -/
def outerRings (paths : Paths) : List (Ring K) :=
  ((keptRings paths).filter fun ring => 0 < signedArea ring).insertionSort
    fun a b => signedArea a ≤ signedArea b

/-- The polygons of the rings of an offset. -/
def pathsToMultipolygon (paths : Paths) : List (Polygon (Ring K)) :=
  ((keptRings paths).filter fun ring => ¬0 < signedArea ring).foldl
    (addHole contains interiorPoint) ((outerRings paths).map fun ext => ⟨ext, []⟩)

/-! ## What the backend knows of points -/

/-- The backend knows what lies strictly inside simple rings. -/
structure PointsExact (rings : List (Ring K)) : Prop where
  /-- What is strictly inside is inside. -/
  sound : ∀ ring ∈ rings, ∀ p, contains ring p = true → p ∈ inside ring
  /-- What is strictly inside a ring is strictly inside a ring around it. -/
  mono : ∀ ring ∈ rings, ∀ around ∈ rings, ∀ p, contains ring p = true →
    inside ring ⊆ inside around → contains around p = true
  /-- The interior point of a ring is strictly inside it. -/
  probe : ∀ ring ∈ rings, ∃ p, interiorPoint ring = some p ∧ contains ring p = true

/-! ## Rings that nest -/

/-- The rings of the boundary of a region. -/
structure Boundary (rings : List (Ring K)) : Prop where
  /-- No ring is there twice. -/
  nodup : rings.Nodup
  /-- They nest. -/
  nested : Nested rings.toFinset inside
  /-- The outer rings run counter-clockwise. -/
  outer : ∀ ring ∈ rings, IsOuter rings.toFinset inside ring ↔ 0 < signedArea ring
  /-- The holes run clockwise. -/
  hole : ∀ ring ∈ rings, ¬IsOuter rings.toFinset inside ring → signedArea ring < 0
  /-- Of two rings one in the other, the inner one has the smaller area. -/
  smaller : ∀ ring ∈ rings, ∀ around ∈ rings, inside ring ⊂ inside around →
    |signedArea ring| < |signedArea around|

/-- Each outer ring is a polygon, and each hole is with its owner. -/
structure Attached (rings : List (Ring K)) (polys : List (Polygon (Ring K))) : Prop where
  outers : ∀ ring, (∃ p ∈ polys, p.exterior = ring)
    ↔ ring ∈ rings ∧ IsOuter rings.toFinset inside ring
  once : (polys.map Polygon.exterior).Nodup
  holes : ∀ p ∈ polys, ∀ hole, hole ∈ p.interiors
    ↔ hole ∈ rings ∧ ¬IsOuter rings.toFinset inside hole
      ∧ Owner rings.toFinset inside hole p.exterior
  holesOnce : ∀ p ∈ polys, p.interiors.Nodup

/-- The polygons have the rings of a region, and cover it. -/
def Preserved (rings : List (Ring K)) (polys : List (Polygon (Ring K))) : Prop :=
  Attached rings polys ∧ ∀ x, (∃ p ∈ polys, x ∈ solid p) ↔ x ∈ evenOdd rings

variable {contains interiorPoint}
variable {rings : List (Ring K)} {polys : List (Polygon (Ring K))} {x : Coord K}

theorem card_setsAround (h : rings.Nodup) :
    (setsAround rings.toFinset inside x).card = rings.countP (pointInRing x) := by
  classical
  rw [List.countP_eq_length_filter, ← List.toFinset_card_of_nodup (h.filter _)]
  congr 1
  ext ring
  simp [Nested.mem_setsAround, inside]

/-- **Polygons that are rightly attached cover the region.** -/
theorem Attached.covers (h : Attached rings polys) (hnodup : rings.Nodup)
    (hnested : Nested rings.toFinset inside) :
    (∃ p ∈ polys, x ∈ solid p) ↔ x ∈ evenOdd rings := by
  have hcard := hnested.mem_outer_iff (x := x)
  rw [card_setsAround hnodup] at hcard
  refine Iff.trans ?_ hcard
  constructor
  · rintro ⟨p, hp, hx, hholes⟩
    obtain ⟨hmem, houter⟩ := (h.outers p.exterior).mp ⟨p, hp, rfl⟩
    refine ⟨p.exterior, List.mem_toFinset.mpr hmem, houter, hx, fun hole hhole hodd howner => ?_⟩
    exact hholes hole ((h.holes p hp hole).mpr ⟨List.mem_toFinset.mp hhole, hodd, howner⟩)
  · rintro ⟨o, ho, houter, hx, hholes⟩
    obtain ⟨p, hp, rfl⟩ := (h.outers o).mpr ⟨List.mem_toFinset.mp ho, houter⟩
    refine ⟨p, hp, hx, fun hole hhole => ?_⟩
    obtain ⟨hmem, hodd, howner⟩ := (h.holes p hp hole).mp hhole
    exact hholes hole (List.mem_toFinset.mpr hmem) hodd howner

theorem preserved_iff_attached (hnodup : rings.Nodup)
    (hnested : Nested rings.toFinset inside) : Preserved rings polys ↔ Attached rings polys :=
  and_iff_left_of_imp fun h _ => h.covers hnodup hnested

/-! ## The outer ring that a hole is given to -/

section Given

variable (contains interiorPoint) in
/-- The first of the outer rings around the point that a hole is probed with. -/
def givenTo (exts : List (Ring K)) (hole : Ring K) : Option (Ring K) :=
  (interiorPoint hole).bind fun p => exts.find? (contains · p)

variable {exts : List (Ring K)} {hole o : Ring K} {p : Coord K}

omit [Field K] in
theorem pushHole_map (hnodup : exts.Nodup) (given : Ring K → List (Ring K)) :
    pushHole contains p hole (exts.map fun ext => ⟨ext, given ext⟩)
      = exts.map fun ext =>
        ⟨ext, given ext ++ if exts.find? (contains · p) = some ext then [hole] else []⟩ := by
  induction exts with
  | nil => rfl
  | cons ext rest ih =>
    obtain ⟨hfresh, hrest⟩ := List.nodup_cons.mp hnodup
    simp only [List.map_cons, pushHole]
    by_cases hcontains : contains ext p = true
    · have hfind : (ext :: rest).find? (contains · p) = some ext :=
        List.find?_cons_of_pos hcontains
      rw [if_pos hcontains, hfind, if_pos rfl]
      congr 1
      refine List.map_congr_left fun other hother => ?_
      have hne : ext ≠ other := fun heq => hfresh (heq ▸ hother)
      rw [if_neg (by simpa using hne), List.append_nil]
    · have hfind : (ext :: rest).find? (contains · p) = rest.find? (contains · p) :=
        List.find?_cons_of_neg hcontains
      rw [if_neg hcontains, hfind, ih hrest]
      have hnone : rest.find? (contains · p) ≠ some ext := fun hfind =>
        hfresh (List.mem_of_find?_eq_some hfind)
      rw [if_neg hnone, List.append_nil]

omit [Field K] in
theorem addHole_map (hnodup : exts.Nodup) (given : Ring K → List (Ring K)) :
    addHole contains interiorPoint (exts.map fun ext => ⟨ext, given ext⟩) hole
      = exts.map fun ext => ⟨ext, given ext
        ++ if givenTo contains interiorPoint exts hole = some ext then [hole] else []⟩ := by
  unfold addHole givenTo
  cases interiorPoint hole with
  | none => simp
  | some p => exact pushHole_map hnodup given

omit [Field K] in
theorem foldl_addHole (hnodup : exts.Nodup) (holes : List (Ring K))
    (given : Ring K → List (Ring K)) :
    holes.foldl (addHole contains interiorPoint) (exts.map fun ext => ⟨ext, given ext⟩)
      = exts.map fun ext => ⟨ext, given ext
        ++ holes.filter fun hole => givenTo contains interiorPoint exts hole = some ext⟩ := by
  induction holes generalizing given with
  | nil => simp
  | cons hole rest ih =>
    rw [List.foldl_cons, addHole_map hnodup, ih]
    refine List.map_congr_left fun ext _ => ?_
    rw [List.filter_cons]
    by_cases hgiven : givenTo contains interiorPoint exts hole = some ext
    · simp [hgiven]
    · simp [hgiven]

end Given

/-! ## The rings that are kept -/

section Kept

variable [IsStrictOrderedRing K]

/-- The signed area of a ring of integer steps, doubled. -/
def doubledArea (path : List (ℤ × ℤ)) : ℤ :=
  (path.zip (path.rotate 1)).foldl (fun acc e => acc + (e.1.1 * e.2.2 - e.2.1 * e.1.2)) 0

/-- The sum of the areas along the edges, in steps and in millimetres. -/
theorem foldl_toCoord (es : List ((ℤ × ℤ) × (ℤ × ℤ))) (acc : ℤ) :
    (es.map fun e => ((toCoord e.1 : Coord K), (toCoord e.2 : Coord K))).foldl
        (fun acc e => acc + (e.1.1 * e.2.2 - e.2.1 * e.1.2))
        ((acc : K) / ((integerScale : K) * (integerScale : K)))
      = ((es.foldl (fun acc e => acc + (e.1.1 * e.2.2 - e.2.1 * e.1.2)) acc : ℤ) : K)
        / ((integerScale : K) * (integerScale : K)) := by
  induction es generalizing acc with
  | nil => rfl
  | cons e es ih =>
    rw [List.map_cons, List.foldl_cons, List.foldl_cons, ← ih]
    congr 1
    unfold toCoord
    push_cast
    ring

theorem signedArea_toRing (path : List (ℤ × ℤ)) (h : 3 ≤ path.length) :
    signedArea (toRing path : Ring K)
      = (doubledArea path : K) / ((integerScale : K) * (integerScale : K)) / ((2 : ℕ) : K) := by
  have hlen : ¬(toRing path : Ring K).length < 3 := by
    unfold toRing
    rw [List.length_map]
    omega
  have hedges : (toRing path : Ring K).zip ((toRing path : Ring K).rotate 1)
      = (path.zip (path.rotate 1)).map fun e => ((toCoord e.1 : Coord K), toCoord e.2) := by
    unfold toRing
    rw [← List.map_rotate, List.zip_map]
    rfl
  have hsum := foldl_toCoord (K := K) (path.zip (path.rotate 1)) 0
  rw [Int.cast_zero, zero_div] at hsum
  unfold signedArea
  rw [if_neg hlen, hedges, hsum]
  rfl

/-- **Of the rings of an offset, only those without an area are dropped.** -/
theorem epsilon_le_signedArea (path : List (ℤ × ℤ)) (h : signedArea (toRing path : Ring K) ≠ 0) :
    epsilon K ≤ |signedArea (toRing path : Ring K)| := by
  have hlen : 3 ≤ path.length := by
    by_contra hshort
    refine h (if_pos ?_)
    unfold toRing
    rw [List.length_map]
    omega
  rw [signedArea_toRing path hlen] at h ⊢
  have hdoubled : doubledArea path ≠ 0 := by
    intro hzero
    rw [hzero, Int.cast_zero, zero_div, zero_div] at h
    exact h rfl
  have hone : (1 : K) ≤ |(doubledArea path : K)| := by
    rw [← Int.cast_abs]
    exact_mod_cast Int.one_le_abs hdoubled
  have hscale : (0 : K) < (integerScale : K) * (integerScale : K) := by
    unfold integerScale
    norm_num
  rw [abs_div, abs_div, abs_of_pos hscale, Nat.abs_cast]
  unfold epsilon
  calc (1 : K) / ((2 ^ 52 : ℕ) : K)
      _ ≤ 1 / ((integerScale : K) * (integerScale : K)) / ((2 : ℕ) : K) := by
        unfold integerScale
        norm_num
      _ ≤ |(doubledArea path : K)| / ((integerScale : K) * (integerScale : K))
          / ((2 : ℕ) : K) := by
        gcongr

theorem keptRings_eq (paths : Paths)
    (h : ∀ ring ∈ (paths.map toRing : List (Ring K)), signedArea ring ≠ 0) :
    (keptRings paths : List (Ring K)) = paths.map toRing := by
  refine List.filter_eq_self.mpr fun ring hring => ?_
  obtain ⟨path, -, rfl⟩ := List.mem_map.mp hring
  exact decide_eq_true (not_lt.mpr (epsilon_le_signedArea path (h _ hring)))

end Kept

/-! ## Where the holes go -/

section Paths

variable [IsStrictOrderedRing K] {paths : Paths} {ring hole o : Ring K}

omit [IsStrictOrderedRing K] in
theorem Boundary.signedArea_ne_zero (h : Boundary rings) (hring : ring ∈ rings) :
    signedArea ring ≠ 0 := by
  by_cases houter : IsOuter rings.toFinset inside ring
  · exact ((h.outer ring hring).mp houter).ne'
  · exact (h.hole ring hring houter).ne

theorem keptRings_boundary (h : Boundary (paths.map toRing : List (Ring K))) :
    (keptRings paths : List (Ring K)) = paths.map toRing :=
  keptRings_eq paths fun _ hring => h.signedArea_ne_zero hring

theorem mem_outerRings (h : Boundary (paths.map toRing : List (Ring K))) :
    ring ∈ (outerRings paths : List (Ring K)) ↔ ring ∈ (paths.map toRing : List (Ring K))
      ∧ IsOuter (paths.map toRing : List (Ring K)).toFinset inside ring := by
  unfold outerRings
  rw [List.mem_insertionSort, keptRings_boundary h, List.mem_filter, decide_eq_true_eq]
  exact and_congr_right fun hring => (h.outer ring hring).symm

theorem nodup_outerRings (h : Boundary (paths.map toRing : List (Ring K))) :
    (outerRings paths : List (Ring K)).Nodup := by
  unfold outerRings
  rw [(List.perm_insertionSort _ _).nodup_iff, keptRings_boundary h]
  exact h.nodup.filter _

omit [IsStrictOrderedRing K] in
/-- The smallest outer ring comes first. -/
theorem pairwise_outerRings (paths : Paths) :
    (outerRings paths : List (Ring K)).Pairwise fun a b => signedArea a ≤ signedArea b := by
  have htotal : Std.Total fun a b : Ring K => signedArea a ≤ signedArea b :=
    ⟨fun a b => le_total (signedArea a) (signedArea b)⟩
  have htrans : IsTrans (Ring K) fun a b => signedArea a ≤ signedArea b :=
    ⟨fun a b c hab hbc => hab.trans hbc⟩
  exact List.pairwise_insertionSort _ _

theorem pathsToMultipolygon_eq (h : Boundary (paths.map toRing : List (Ring K))) :
    pathsToMultipolygon contains interiorPoint paths = (outerRings paths).map fun ext =>
      ⟨ext, ((paths.map toRing).filter fun ring => ¬0 < signedArea ring).filter fun hole =>
        givenTo contains interiorPoint (outerRings paths) hole = some ext⟩ := by
  unfold pathsToMultipolygon
  rw [keptRings_boundary h]
  exact foldl_addHole (nodup_outerRings h) _ fun _ => []

variable (contains interiorPoint) in
/-- A hole is probed in no outer ring that lies in it. -/
def ProbedOffIslands (rings : List (Ring K)) : Prop :=
  ∀ hole ∈ rings, ¬IsOuter rings.toFinset inside hole →
    ∀ island ∈ rings, IsOuter rings.toFinset inside island → inside island ⊂ inside hole →
      ∀ p, interiorPoint hole = some p → contains island p = false

/-- An outer ring around the probe of a hole lies in the hole, or it is around its owner. -/
theorem Boundary.around_probe (h : Boundary rings)
    (hpoints : PointsExact contains interiorPoint rings) {hole o ext : Ring K} {p : Coord K}
    (hhole : hole ∈ rings) (hodd : ¬IsOuter rings.toFinset inside hole)
    (howner : Owner rings.toFinset inside hole o) (hext : ext ∈ rings)
    (houter : IsOuter rings.toFinset inside ext) (hp : contains hole p = true)
    (haround : contains ext p = true) :
    inside ext ⊂ inside hole ∨ ext = o ∨ signedArea o < signedArea ext := by
  have hne : ext ≠ hole := fun heq => hodd (heq ▸ houter)
  rcases h.nested.apart ext (List.mem_toFinset.mpr hext) hole (List.mem_toFinset.mpr hhole) hne
    with hin | hin | hdisjoint
  · exact .inl hin
  · refine .inr ?_
    by_cases heq : ext = o
    · exact .inl heq
    refine .inr ?_
    have hsub := howner.innermost ext (List.mem_toFinset.mpr hext) houter hin
    have ho := List.mem_toFinset.mp howner.mem
    -- of two outer rings around the hole the owner is the inner one
    rcases h.nested.apart ext (List.mem_toFinset.mpr hext) o howner.mem heq
      with hlt | hlt | hdisjoint
    · exact absurd hsub hlt.2
    · have hsmaller := h.smaller o ho ext hext hlt
      rwa [abs_of_pos ((h.outer o ho).mp howner.outer),
        abs_of_pos ((h.outer ext hext).mp houter)] at hsmaller
    · obtain ⟨x, hx⟩ := h.nested.nonempty hole (List.mem_toFinset.mpr hhole)
      exact absurd (howner.around.1 hx) (Set.disjoint_left.mp hdisjoint (hin.1 hx))
  · exact absurd (hpoints.sound hole hhole p hp)
      (Set.disjoint_left.mp hdisjoint (hpoints.sound ext hext p haround))

/-- **A hole is given to its owner** if no island around its probe lies in it. -/
theorem givenTo_owner (h : Boundary (paths.map toRing : List (Ring K)))
    (hpoints : PointsExact contains interiorPoint (paths.map toRing)) {hole o : Ring K}
    (hhole : hole ∈ (paths.map toRing : List (Ring K)))
    (hodd : ¬IsOuter (paths.map toRing : List (Ring K)).toFinset inside hole)
    (howner : Owner (paths.map toRing : List (Ring K)).toFinset inside hole o)
    (hoff : ∀ island ∈ (paths.map toRing : List (Ring K)),
      IsOuter (paths.map toRing : List (Ring K)).toFinset inside island →
      inside island ⊂ inside hole → ∀ p, interiorPoint hole = some p →
        contains island p = false) :
    givenTo contains interiorPoint (outerRings paths) hole = some o := by
  obtain ⟨p, hprobe, hp⟩ := hpoints.probe hole hhole
  have ho := List.mem_toFinset.mp howner.mem
  obtain ⟨before, after, hsplit⟩ :=
    List.append_of_mem ((mem_outerRings h).mpr ⟨ho, howner.outer⟩)
  unfold givenTo
  rw [hprobe, Option.bind_some, List.find?_eq_some_iff_append]
  refine ⟨hpoints.mono hole hhole o ho p hp howner.around.1, before, after, hsplit,
    fun ext hext => ?_⟩
  -- the outer rings before the owner are smaller
  have hsorted := pairwise_outerRings (K := K) paths
  have hnodup := nodup_outerRings h
  rw [hsplit, List.pairwise_append] at hsorted
  rw [hsplit, List.nodup_append'] at hnodup
  have hle := hsorted.2.2 ext hext o List.mem_cons_self
  obtain ⟨hmem, houter⟩ := (mem_outerRings h).mp
    (hsplit ▸ List.mem_append_left _ hext : ext ∈ (outerRings paths : List (Ring K)))
  by_contra haround
  have haround : contains ext p = true := by simpa using haround
  rcases h.around_probe hpoints hhole hodd howner hmem houter hp haround with hin | heq | hlt
  · exact Bool.false_ne_true ((hoff ext hmem houter hin p hprobe).symm.trans haround)
  · exact hnodup.2.2 hext (heq ▸ List.mem_cons_self)
  · exact absurd hle (not_le.mpr hlt)

/-- An island around the probe of a hole keeps the hole from its owner. -/
theorem givenTo_ne_owner (h : Boundary (paths.map toRing : List (Ring K))) {hole o island : Ring K}
    {p : Coord K} (howner : Owner (paths.map toRing : List (Ring K)).toFinset inside hole o)
    (hisland : island ∈ (paths.map toRing : List (Ring K)))
    (houter : IsOuter (paths.map toRing : List (Ring K)).toFinset inside island)
    (hin : inside island ⊂ inside hole) (hprobe : interiorPoint hole = some p)
    (haround : contains island p = true) :
    givenTo contains interiorPoint (outerRings paths) hole ≠ some o := by
  intro hgiven
  unfold givenTo at hgiven
  rw [hprobe, Option.bind_some, List.find?_eq_some_iff_append] at hgiven
  obtain ⟨-, before, after, hsplit, hbefore⟩ := hgiven
  have ho := List.mem_toFinset.mp howner.mem
  have hsmaller := h.smaller island hisland o ho (hin.trans howner.around)
  rw [abs_of_pos ((h.outer island hisland).mp houter),
    abs_of_pos ((h.outer o ho).mp howner.outer)] at hsmaller
  have hmem := (mem_outerRings h).mpr ⟨hisland, houter⟩
  have hsorted := pairwise_outerRings (K := K) paths
  rw [hsplit, List.mem_append, List.mem_cons] at hmem
  rw [hsplit, List.pairwise_append, List.pairwise_cons] at hsorted
  rcases hmem with hmem | rfl | hmem
  · have hoff := hbefore island hmem
    rw [haround] at hoff
    exact Bool.false_ne_true hoff
  · exact lt_irrefl _ hsmaller
  · exact absurd (hsorted.2.1.1 island hmem) (not_le.mpr hsmaller)

theorem attached_paths_iff (h : Boundary (paths.map toRing : List (Ring K))) :
    Attached (paths.map toRing) (pathsToMultipolygon contains interiorPoint paths)
      ↔ ∀ hole ∈ (paths.map toRing : List (Ring K)),
        ¬IsOuter (paths.map toRing : List (Ring K)).toFinset inside hole →
        ∀ o, Owner (paths.map toRing : List (Ring K)).toFinset inside hole o →
          givenTo contains interiorPoint (outerRings paths) hole = some o := by
  rw [pathsToMultipolygon_eq h]
  constructor
  · intro hattached hole hhole hodd o howner
    have ho := (mem_outerRings h).mpr ⟨List.mem_toFinset.mp howner.mem, howner.outer⟩
    have hmem := (hattached.holes _ (List.mem_map_of_mem ho) hole).mpr ⟨hhole, hodd, howner⟩
    exact of_decide_eq_true (List.mem_filter.mp hmem).2
  · intro hgiven
    refine ⟨fun ring => ?_, ?_, fun p hp hole => ?_, fun p hp => ?_⟩
    · rw [← mem_outerRings h]
      simp
    · rw [List.map_map]
      exact (List.map_id _).symm ▸ nodup_outerRings h
    · obtain ⟨o, ho, rfl⟩ := List.mem_map.mp hp
      dsimp only
      rw [List.mem_filter, List.mem_filter, decide_eq_true_eq, decide_eq_true_eq, and_assoc]
      refine and_congr_right fun hhole => ?_
      rw [← h.outer hole hhole]
      refine and_congr_right fun hodd => ?_
      -- every hole has one owner, and is given to it
      obtain ⟨owner, howner⟩ := h.nested.exists_owner (List.mem_toFinset.mpr hhole) hodd
      rw [hgiven hole hhole hodd owner howner, Option.some_inj]
      constructor
      · rintro rfl
        exact howner
      · intro hother
        have hsome := hgiven hole hhole hodd o hother
        rw [hgiven hole hhole hodd owner howner] at hsome
        exact Option.some.inj hsome
    · obtain ⟨o, ho, rfl⟩ := List.mem_map.mp hp
      exact (h.nodup.filter _).filter _

/-- **The polygons of an offset preserve its rings** exactly if no hole is probed in an outer ring
that lies in it. -/
theorem preserved_paths_iff (h : Boundary (paths.map toRing : List (Ring K)))
    (hpoints : PointsExact contains interiorPoint (paths.map toRing)) :
    Preserved (paths.map toRing) (pathsToMultipolygon contains interiorPoint paths)
      ↔ ProbedOffIslands contains interiorPoint (paths.map toRing) := by
  rw [preserved_iff_attached h.nodup h.nested, attached_paths_iff h]
  constructor
  · intro hgiven hole hhole hodd island hisland houter hin p hprobe
    by_contra haround
    obtain ⟨o, howner⟩ := h.nested.exists_owner (List.mem_toFinset.mpr hhole) hodd
    exact givenTo_ne_owner h howner hisland houter hin hprobe (by simpa using haround)
      (hgiven hole hhole hodd o howner)
  · intro hoff hole hhole hodd o howner
    exact givenTo_owner h hpoints hhole hodd howner (hoff hole hhole hodd)

end Paths

/-! ## Where the contours of a region go -/

section Region

variable {contours : List (Ring K)} {k m : Fin contours.length}

variable (interiorPoint) in
/-- The point that a contour is probed with. -/
def probed (ring : Ring K) : Coord K := (interiorPoint ring).getD 0

variable (interiorPoint) in
/-- A contour is probed in no contour that lies in it. -/
def ProbedOffNested (contours : List (Ring K)) : Prop :=
  ∀ ring ∈ contours, ∀ within ∈ contours, inside within ⊂ inside ring →
    ∀ p, interiorPoint ring = some p → p ∉ inside within

theorem PointsExact.exists_probe (h : PointsExact contains interiorPoint contours)
    (k : Fin contours.length) :
    ∃ p, interiorPoint (contours.get k) = some p ∧ p ∈ inside (contours.get k) := by
  obtain ⟨p, hp, hcontains⟩ := h.probe (contours.get k) (List.get_mem contours k)
  exact ⟨p, hp, h.sound (contours.get k) (List.get_mem contours k) p hcontains⟩

theorem PointsExact.probed_mem (h : PointsExact contains interiorPoint contours) :
    ∀ ring ∈ contours.toFinset, probed interiorPoint ring ∈ inside ring := by
  intro ring hring
  obtain ⟨p, hp, hcontains⟩ := h.probe ring (List.mem_toFinset.mp hring)
  unfold probed
  rw [hp]
  exact h.sound ring (List.mem_toFinset.mp hring) p hcontains

/-- The depth of a contour is the level that its probe tells. -/
theorem depth_eq_probedLevel (hnodup : contours.Nodup)
    (h : PointsExact contains interiorPoint contours) (k : Fin contours.length) :
    depth interiorPoint contours k
      = Nested.probedLevel contours.toFinset inside (probed interiorPoint) (contours.get k) := by
  obtain ⟨p, hp, hpk⟩ := h.exists_probe k
  change interiorPoint contours[k] = some p at hp
  have hothers : (Finset.univ.filter fun m =>
      (m ≠ k && pointInRing p contours[m]) = true) = (around contours p).erase k := by
    ext m
    simp [around]
  unfold depth Nested.probedLevel probed
  rw [hp, List.get_eq_getElem, show interiorPoint contours[k.1] = some p from hp]
  dsimp only
  rw [length_filter_finRange, hothers, Finset.card_erase_of_mem (mem_around.mpr hpk), card_around,
    Option.getD_some, card_setsAround hnodup]

theorem exists_exterior_iff (hnodup : contours.Nodup)
    (h : PointsExact contains interiorPoint contours) {ring : Ring K} :
    (∃ p ∈ assembleRegion interiorPoint contours, p.exterior = ring) ↔ ring ∈ contours
      ∧ Nested.probedLevel contours.toFinset inside (probed interiorPoint) ring % 2 = 0 := by
  constructor
  · rintro ⟨p, hp, rfl⟩
    obtain ⟨k, -, heven, rfl⟩ := mem_assembleRegion.mp hp
    rw [depth_eq_probedLevel hnodup h] at heven
    exact ⟨List.getElem_mem k.2, heven⟩
  · rintro ⟨hring, heven⟩
    obtain ⟨i, hi, rfl⟩ := List.mem_iff_getElem.mp hring
    obtain ⟨p, hp, -⟩ := h.exists_probe ⟨i, hi⟩
    rw [List.get_eq_getElem] at hp
    refine ⟨_, mem_assembleRegion.mpr ⟨⟨i, hi⟩, Option.isSome_of_mem hp, ?_, rfl⟩, rfl⟩
    rw [depth_eq_probedLevel hnodup h]
    exact heven

theorem mem_holes_iff (hnodup : contours.Nodup) (h : PointsExact contains interiorPoint contours)
    {hole : Ring K} : hole ∈ holes interiorPoint contours k ↔ hole ∈ contours
      ∧ Nested.probedLevel contours.toFinset inside (probed interiorPoint) hole
        = Nested.probedLevel contours.toFinset inside (probed interiorPoint) (contours.get k) + 1
      ∧ probed interiorPoint hole ∈ inside (contours.get k) := by
  rw [mem_holes]
  constructor
  · rintro ⟨m, -, hdepth, ⟨p, hp, hpk⟩, rfl⟩
    rw [depth_eq_probedLevel hnodup h, depth_eq_probedLevel hnodup h] at hdepth
    refine ⟨List.getElem_mem m.2, hdepth, ?_⟩
    unfold probed
    rw [hp]
    exact hpk
  · rintro ⟨hmem, hlevel, hprobe⟩
    obtain ⟨i, hi, rfl⟩ := List.mem_iff_getElem.mp hmem
    obtain ⟨p, hp, -⟩ := h.exists_probe ⟨i, hi⟩
    refine ⟨⟨i, hi⟩, ?_, ?_, ⟨p, hp, ?_⟩, rfl⟩
    · rintro rfl
      exact absurd hlevel (Nat.succ_ne_self _).symm
    · rw [depth_eq_probedLevel hnodup h, depth_eq_probedLevel hnodup h]
      exact hlevel
    · unfold probed at hprobe
      rw [List.get_eq_getElem] at hp
      rw [hp] at hprobe
      exact hprobe

omit [Field K] [LinearOrder K] in
theorem getElem_injective (hnodup : contours.Nodup) :
    Function.Injective contours.get :=
  List.nodup_iff_injective_get.mp hnodup

theorem nodup_exteriors (hnodup : contours.Nodup) :
    ((assembleRegion interiorPoint contours).map Polygon.exterior).Nodup := by
  unfold assembleRegion
  rw [List.map_filterMap]
  refine (List.nodup_finRange contours.length).filterMap fun i j ring hi hj => ?_
  rw [Option.mem_def, Option.map_eq_some_iff] at hi hj
  obtain ⟨poly, hpoly, hexterior⟩ := hi
  obtain ⟨other, hother, rfl⟩ := hj
  have hi : poly.exterior = contours[i] := by
    split at hpoly
    · cases hpoly
    · split at hpoly
      · cases hpoly
      · exact congrArg Polygon.exterior (Option.some.inj hpoly).symm
  have hj : other.exterior = contours[j] := by
    split at hother
    · cases hother
    · split at hother
      · cases hother
      · exact congrArg Polygon.exterior (Option.some.inj hother).symm
  exact getElem_injective hnodup (hi.symm.trans (hexterior.trans hj))

theorem nodup_holes (hnodup : contours.Nodup) : (holes interiorPoint contours k).Nodup := by
  unfold holes
  exact ((List.nodup_finRange contours.length).filter _).map (getElem_injective hnodup)

theorem attached_region_iff (hnodup : contours.Nodup)
    (h : PointsExact contains interiorPoint contours) :
    Attached contours (assembleRegion interiorPoint contours)
      ↔ Nested.Told contours.toFinset inside (probed interiorPoint) := by
  constructor
  · intro hattached
    have houter : ∀ ring ∈ contours.toFinset, IsOuter contours.toFinset inside ring ↔
        Nested.probedLevel contours.toFinset inside (probed interiorPoint) ring % 2 = 0 := by
      intro ring hring
      have houters := hattached.outers ring
      rw [exists_exterior_iff hnodup h, and_congr_right_iff] at houters
      exact (houters (List.mem_toFinset.mp hring)).symm
    refine ⟨houter, fun o ho hoOuter m hm => ?_⟩
    obtain ⟨p, hp, rfl⟩ := (exists_exterior_iff hnodup h).mpr
      ⟨List.mem_toFinset.mp ho, (houter o ho).mp hoOuter⟩
    have hholes := hattached.holes p hp m
    obtain ⟨k, -, -, rfl⟩ := mem_assembleRegion.mp hp
    rw [mem_holes_iff hnodup h, and_congr_right_iff] at hholes
    exact hholes (List.mem_toFinset.mp hm)
  · intro htold
    refine ⟨fun ring => ?_, nodup_exteriors hnodup, fun p hp hole => ?_, fun p hp => ?_⟩
    · rw [exists_exterior_iff hnodup h]
      exact and_congr_right fun hring => (htold.outer ring (List.mem_toFinset.mpr hring)).symm
    · have hexterior := (exists_exterior_iff hnodup h).mp ⟨p, hp, rfl⟩
      obtain ⟨k, -, -, rfl⟩ := mem_assembleRegion.mp hp
      rw [mem_holes_iff hnodup h]
      have hmem := List.mem_toFinset.mpr hexterior.1
      exact and_congr_right fun hhole => htold.owned _ hmem
        ((htold.outer _ hmem).mpr hexterior.2) hole (List.mem_toFinset.mpr hhole)
    · obtain ⟨k, -, -, rfl⟩ := mem_assembleRegion.mp hp
      exact nodup_holes hnodup

/-- **The polygons of a region preserve its contours** exactly if no contour is probed in one that
lies in it. -/
theorem preserved_region_iff (hnodup : contours.Nodup)
    (hnested : Nested contours.toFinset inside)
    (h : PointsExact contains interiorPoint contours) :
    Preserved contours (assembleRegion interiorPoint contours)
      ↔ ProbedOffNested interiorPoint contours := by
  rw [preserved_iff_attached hnodup hnested, attached_region_iff hnodup h,
    hnested.told_iff h.probed_mem]
  simp only [List.mem_toFinset]
  refine forall₂_congr fun ring hring => forall₂_congr fun within hwithin => ?_
  refine forall_congr' fun hlt => ?_
  obtain ⟨p, hp, -⟩ := h.probe ring hring
  unfold probed
  simp [hp]

end Region

end Rings

/-! ## Squares in squares -/

/-- A square in whole millimetres, counter-clockwise. -/
def box (low high : ℤ) : List (ℤ × ℤ) :=
  [(low * 1000000, low * 1000000), (high * 1000000, low * 1000000),
    (high * 1000000, high * 1000000), (low * 1000000, high * 1000000)]

/-- The middle between the first corner of a ring and the third. -/
def centre : Ring ℚ → Option (Coord ℚ)
  | first :: _ :: third :: _ => some ((first.1 + third.1) / 2, (first.2 + third.2) / 2)
  | _ => none

theorem toRing_box (low high : ℤ) : (toRing (box low high) : Ring ℚ)
    = [((low : ℚ), (low : ℚ)), ((high : ℚ), (low : ℚ)), ((high : ℚ), (high : ℚ)),
      ((low : ℚ), (high : ℚ))] := by
  simp [toRing, toCoord, box, integerScale]

theorem toRing_reverse (path : List (ℤ × ℤ)) :
    (toRing path.reverse : Ring ℚ) = (toRing path).reverse := List.map_reverse

theorem inside_box {low high : ℤ} (h : low < high) :
    inside (toRing (box low high) : Ring ℚ)
      = Set.Ico (low : ℚ) high ×ˢ Set.Ico (low : ℚ) high := by
  have hlt : (low : ℚ) < high := by exact_mod_cast h
  ext x
  rw [toRing_box]
  simp [inside, pointInRing, edges, crosses, List.zip_cons_cons]
  grind

theorem inside_box_reverse {low high : ℤ} (h : low < high) :
    inside (toRing (box low high).reverse : Ring ℚ)
      = Set.Ico (low : ℚ) high ×ˢ Set.Ico (low : ℚ) high := by
  have hlt : (low : ℚ) < high := by exact_mod_cast h
  ext x
  rw [toRing_reverse, toRing_box]
  simp [inside, pointInRing, edges, crosses, List.zip_cons_cons]
  grind

/-- A square within a square. -/
theorem Ico_ssubset {low high low' high' : ℤ} (hlow : low < low') (h : low' < high')
    (hhigh : high' < high) :
    Set.Ico (low' : ℚ) high' ×ˢ Set.Ico (low' : ℚ) high'
      ⊂ Set.Ico (low : ℚ) high ×ˢ Set.Ico (low : ℚ) high := by
  have h1 : (low : ℚ) < low' := by exact_mod_cast hlow
  have h2 : (low' : ℚ) < high' := by exact_mod_cast h
  have h3 : (high' : ℚ) < high := by exact_mod_cast hhigh
  have hsub : Set.Ico (low' : ℚ) high' ⊆ Set.Ico (low : ℚ) high := Set.Ico_subset_Ico h1.le h3.le
  refine ⟨Set.prod_mono hsub hsub, fun hsup => ?_⟩
  have hcorner : ((low : ℚ), (low : ℚ)) ∈ Set.Ico (low' : ℚ) high' ×ˢ Set.Ico (low' : ℚ) high' :=
    hsup ⟨⟨le_rfl, by linarith⟩, le_rfl, by linarith⟩
  exact absurd hcorner.1.1 (not_le.mpr h1)

/-- Rings listed from the outside in, every second one clockwise. -/
theorem boundary_of_pairwise {rings : List (Ring ℚ)}
    (h : rings.Pairwise fun a b => inside b ⊂ inside a) (hne : ∀ ring ∈ rings, (inside ring).Nonempty)
    (hsign : ∀ i (hi : i < rings.length),
      (i % 2 = 0 → 0 < signedArea rings[i]) ∧ (i % 2 ≠ 0 → signedArea rings[i] < 0))
    (hsmaller : rings.Pairwise fun a b => |signedArea b| < |signedArea a|) : Boundary rings := by
  have houter : ∀ i (hi : i < rings.length),
      IsOuter rings.toFinset inside rings[i] ↔ i % 2 = 0 := by
    intro i hi
    unfold IsOuter
    rw [Nested.level_getElem h hi]
  refine ⟨Nested.nodup_of_pairwise h, Nested.of_pairwise h hne, fun ring hring => ?_,
    fun ring hring hodd => ?_, fun ring hring around haround hlt => ?_⟩
  · obtain ⟨i, hi, rfl⟩ := List.mem_iff_getElem.mp hring
    rw [houter i hi]
    refine ⟨(hsign i hi).1, fun hpos => ?_⟩
    by_contra hodd
    exact absurd hpos ((hsign i hi).2 hodd).le.not_gt
  · obtain ⟨i, hi, rfl⟩ := List.mem_iff_getElem.mp hring
    exact (hsign i hi).2 fun heven => hodd ((houter i hi).mpr heven)
  · obtain ⟨i, hi, rfl⟩ := List.mem_iff_getElem.mp hring
    obtain ⟨j, hj, rfl⟩ := List.mem_iff_getElem.mp haround
    rcases lt_trichotomy i j with hij | rfl | hij
    · exact absurd (hlt.trans (List.pairwise_iff_getElem.mp h i j hi hj hij)) (ssubset_irrefl _)
    · exact absurd hlt (ssubset_irrefl _)
    · exact List.pairwise_iff_getElem.mp hsmaller j i hj hi hij

/-- Two squares, with the inner one off the middle of the outer one. -/
def twoBoxes : Paths := [box 0 20, (box 2 6).reverse]

/-- Three squares around one middle. -/
def threeBoxes : Paths := [box 0 20, (box 5 15).reverse, box 8 12]

theorem pairwise_threeBoxes :
    (threeBoxes.map toRing : List (Ring ℚ)).Pairwise fun a b => inside b ⊂ inside a := by
  simp only [threeBoxes, List.map_cons, List.map_nil, List.pairwise_cons, List.mem_cons,
    List.not_mem_nil, or_false, forall_eq_or_imp, forall_eq, IsEmpty.forall_iff, implies_true,
    List.Pairwise.nil, and_true]
  rw [inside_box (by decide), inside_box_reverse (by decide), inside_box (by decide)]
  exact ⟨⟨Ico_ssubset (by decide) (by decide) (by decide),
    Ico_ssubset (by decide) (by decide) (by decide)⟩,
    Ico_ssubset (by decide) (by decide) (by decide)⟩

theorem pairwise_twoBoxes :
    (twoBoxes.map toRing : List (Ring ℚ)).Pairwise fun a b => inside b ⊂ inside a := by
  simp only [twoBoxes, List.map_cons, List.map_nil, List.pairwise_cons, List.mem_cons,
    List.not_mem_nil, or_false, forall_eq, IsEmpty.forall_iff, implies_true,
    List.Pairwise.nil, and_true]
  rw [inside_box (by decide), inside_box_reverse (by decide)]
  exact Ico_ssubset (by decide) (by decide) (by decide)

/-- The point between two corners of each ring lies in it. -/
theorem pointsExact_centre {rings : List (Ring ℚ)}
    (h : ∀ ring ∈ rings, (centre ring).any (pointInRing · ring) = true) :
    PointsExact (fun ring p => pointInRing p ring) centre rings where
  sound _ _ _ hp := hp
  mono _ _ _ _ _ hp hsub := hsub hp
  probe ring hring := by
    obtain ⟨p, hp, hin⟩ := Option.any_eq_true _ _ |>.mp (h ring hring)
    exact ⟨p, hp, hin⟩

/-- Rings that have the point between two corners inside, turn by turns, and get smaller. -/
def Probed (rings : List (Ring ℚ)) : Prop :=
  (∀ ring ∈ rings, (centre ring).any (pointInRing · ring) = true)
    ∧ (∀ i (hi : i < rings.length),
      (i % 2 = 0 → 0 < signedArea rings[i]) ∧ (i % 2 ≠ 0 → signedArea rings[i] < 0))
    ∧ rings.Pairwise fun a b => |signedArea b| < |signedArea a|

instance : DecidablePred Probed := fun _ => inferInstanceAs (Decidable (_ ∧ _ ∧ _))

/-- The squares are drawn so; the outer of two is probed beside the inner one, and the hole of
three in the island. -/
theorem probed_boxes :
    Probed (threeBoxes.map toRing) ∧ Probed (twoBoxes.map toRing)
      ∧ (centre (toRing (box 0 20))).any (pointInRing · (toRing (box 2 6).reverse)) = false
      ∧ centre (toRing (box 5 15).reverse) = some (10, 10)
      ∧ pointInRing ((10, 10) : Coord ℚ) (toRing (box 8 12)) = true := by
  decide +kernel

theorem pointsExact_threeBoxes :
    PointsExact (fun ring p => pointInRing p ring) centre (threeBoxes.map toRing) :=
  pointsExact_centre probed_boxes.1.1

theorem pointsExact_twoBoxes :
    PointsExact (fun ring p => pointInRing p ring) centre (twoBoxes.map toRing) :=
  pointsExact_centre probed_boxes.2.1.1

theorem PointsExact.nonempty {rings : List (Ring ℚ)} {contains : Ring ℚ → Coord ℚ → Bool}
    {interiorPoint : Ring ℚ → Option (Coord ℚ)} (h : PointsExact contains interiorPoint rings) :
    ∀ ring ∈ rings, (inside ring).Nonempty := by
  intro ring hring
  obtain ⟨p, -, hp⟩ := h.probe ring hring
  exact ⟨p, h.sound ring hring p hp⟩

theorem boundary_threeBoxes : Boundary (threeBoxes.map toRing : List (Ring ℚ)) :=
  boundary_of_pairwise pairwise_threeBoxes pointsExact_threeBoxes.nonempty
    probed_boxes.1.2.1 probed_boxes.1.2.2

theorem boundary_twoBoxes : Boundary (twoBoxes.map toRing : List (Ring ℚ)) :=
  boundary_of_pairwise pairwise_twoBoxes pointsExact_twoBoxes.nonempty
    probed_boxes.2.1.2.1 probed_boxes.2.1.2.2

/-- **Polygons preserve rings that nest** exactly if no hole is probed in an island that lies in
it, and those of a region exactly if no contour is probed in one that lies in it. -/
theorem nesting_preserves {K : Type} [Field K] [LinearOrder K] [IsStrictOrderedRing K]
    (contains : Ring K → Coord K → Bool) (interiorPoint : Ring K → Option (Coord K)) :
    (∀ paths : Paths, Boundary (paths.map toRing : List (Ring K)) →
      PointsExact contains interiorPoint (paths.map toRing) →
        (Preserved (paths.map toRing) (pathsToMultipolygon contains interiorPoint paths)
          ↔ ProbedOffIslands contains interiorPoint (paths.map toRing)))
    ∧ ∀ contours : List (Ring K), contours.Nodup → Nested contours.toFinset inside →
      PointsExact contains interiorPoint contours →
        (Preserved contours (assembleRegion interiorPoint contours)
          ↔ ProbedOffNested interiorPoint contours) :=
  ⟨fun _ h hpoints => preserved_paths_iff h hpoints,
    fun _ hnodup hnested h => preserved_region_iff hnodup hnested h⟩

theorem probedOffNested_twoBoxes : ProbedOffNested centre (twoBoxes.map toRing) := by
  have hlt := pairwise_twoBoxes
  intro ring hring within hwithin hin p hp
  simp only [twoBoxes, List.map_cons, List.map_nil, List.mem_cons, List.not_mem_nil, or_false,
    List.pairwise_cons, forall_eq] at hring hwithin hlt
  rcases hring with rfl | rfl <;> rcases hwithin with rfl | rfl
  · exact absurd hin (ssubset_irrefl _)
  · -- the outer square is probed beside the inner one
    have hoff := probed_boxes.2.2.1
    rw [hp] at hoff
    exact fun hmem => Bool.false_ne_true (hoff.symm.trans hmem)
  · exact absurd (hin.trans hlt.1) (ssubset_irrefl _)
  · exact absurd hin (ssubset_irrefl _)

theorem nesting_preserves_twoBoxes :
    Preserved (twoBoxes.map toRing)
        (pathsToMultipolygon (fun ring p => pointInRing p ring) centre twoBoxes)
      ∧ Preserved (twoBoxes.map toRing) (assembleRegion centre (twoBoxes.map toRing)) := by
  have h := nesting_preserves (K := ℚ) (fun ring p => pointInRing p ring) centre
  constructor
  · refine (h.1 twoBoxes boundary_twoBoxes pointsExact_twoBoxes).mpr
      fun hole hhole _ island hisland _ hin p hp => ?_
    exact Bool.eq_false_iff.mpr (probedOffNested_twoBoxes hole hhole island hisland hin p hp)
  · exact (h.2 _ boundary_twoBoxes.nodup boundary_twoBoxes.nested pointsExact_twoBoxes).mpr
      probedOffNested_twoBoxes

/-- **An island in the middle of a hole takes the hole** from the ring around it, and an outer
contour is lost with an island in its middle. -/
theorem not_nesting_preserves :
    (¬∀ (contains : Ring ℚ → Coord ℚ → Bool) (interiorPoint : Ring ℚ → Option (Coord ℚ))
        (paths : Paths), Boundary (paths.map toRing : List (Ring ℚ)) →
        PointsExact contains interiorPoint (paths.map toRing) →
          Preserved (paths.map toRing) (pathsToMultipolygon contains interiorPoint paths))
      ∧ ¬∀ (contains : Ring ℚ → Coord ℚ → Bool) (interiorPoint : Ring ℚ → Option (Coord ℚ))
        (contours : List (Ring ℚ)), contours.Nodup → Nested contours.toFinset inside →
        PointsExact contains interiorPoint contours →
          Preserved contours (assembleRegion interiorPoint contours) := by
  have hpair := pairwise_threeBoxes
  have hlevel : ∀ i (hi : i < (threeBoxes.map toRing : List (Ring ℚ)).length),
      level (threeBoxes.map toRing : List (Ring ℚ)).toFinset inside
        (threeBoxes.map toRing : List (Ring ℚ))[i] = i := fun i hi => Nested.level_getElem hpair hi
  have hin := List.pairwise_iff_getElem.mp hpair 1 2 (by decide) (by decide) (by decide)
  have hmem : ∀ i (hi : i < (threeBoxes.map toRing : List (Ring ℚ)).length),
      (threeBoxes.map toRing : List (Ring ℚ))[i] ∈ (threeBoxes.map toRing : List (Ring ℚ)) :=
    fun i hi => List.getElem_mem hi
  have hcentre : centre (threeBoxes.map toRing : List (Ring ℚ))[1] = some (10, 10) :=
    probed_boxes.2.2.2.1
  have hprobed : pointInRing ((10, 10) : Coord ℚ) (threeBoxes.map toRing : List (Ring ℚ))[2] = true :=
    probed_boxes.2.2.2.2
  constructor
  · intro h
    have hoff := (preserved_paths_iff boundary_threeBoxes pointsExact_threeBoxes).mp
      (h _ centre threeBoxes boundary_threeBoxes pointsExact_threeBoxes)
    refine Bool.false_ne_true ((hoff _ (hmem 1 (by decide)) ?_ _ (hmem 2 (by decide)) ?_ hin _
      hcentre).symm.trans hprobed)
    · unfold IsOuter
      rw [hlevel 1 (by decide)]
      decide
    · unfold IsOuter
      rw [hlevel 2 (by decide)]
  · intro h
    have hoff := (preserved_region_iff boundary_threeBoxes.nodup boundary_threeBoxes.nested
      pointsExact_threeBoxes).mp (h _ centre _ boundary_threeBoxes.nodup
        boundary_threeBoxes.nested pointsExact_threeBoxes)
    exact hoff _ (hmem 1 (by decide)) _ (hmem 2 (by decide)) hin _ hcentre hprobed

end Galdr.Gerber
