import Galdr.GeoBackend
import Galdr.Painting

/-!
# The contours of a region

A region is given by contours, and is filled by the even-odd rule: it covers a point that lies
inside an odd number of them. `assembleRegion` looks how deep each contour lies, which it probes
with one point inside the contour; a contour at an even depth is the outer ring of a polygon, and
the contours one deeper that lie in it are its holes.

The polygons cover what the rule says if the contours nest and no contour is probed inside one
that lies in it (`mem_assembleRegion`). A contour that is probed inside its own hole is taken for
the deeper of the two.
-/

namespace Galdr.Gerber

open Geo (Polygon)
open Painting

/-- A point of the plane. -/
abbrev Coord (K : Type) := K × K

/-- The points around a contour. -/
abbrev Ring (K : Type) := List (Coord K)

section Contours

variable {K : Type} [Field K] [LinearOrder K]

/-- The edges of a ring, the one that closes it first. -/
def edges (ring : Ring K) : List (Coord K × Coord K) :=
  match ring.getLast? with
  | none => []
  | some last => (last :: ring).zip ring

/-- The ray from a point to the right crosses the edge between two. -/
def crosses (p previous current : Coord K) : Bool :=
  (decide (p.2 < current.2) != decide (p.2 < previous.2)) &&
    decide (p.1 < (previous.1 - current.1) * (p.2 - current.2) / (previous.2 - current.2)
      + current.1)

/-- The ray from a point crosses the ring an odd number of times. -/
def pointInRing (p : Coord K) (ring : Ring K) : Bool :=
  if ring.length < 3 then false
  else (edges ring).foldl (fun inside e => if crosses p e.1 e.2 then !inside else inside) false

/-- The points inside a ring. -/
def inside (ring : Ring K) : Set (Coord K) := {x | pointInRing x ring = true}

/-- The points that a polygon covers. -/
def solid (poly : Polygon (Ring K)) : Set (Coord K) :=
  {x | x ∈ inside poly.exterior ∧ ∀ hole ∈ poly.interiors, x ∉ inside hole}

/-- The points inside an odd number of contours. -/
def evenOdd (contours : List (Ring K)) : Set (Coord K) :=
  {x | contours.countP (pointInRing x) % 2 = 1}

variable (interiorPoint : Ring K → Option (Coord K)) (contours : List (Ring K))

/-- How many other contours there are around the point that a contour is probed with. -/
def depth (k : Fin contours.length) : ℕ :=
  match interiorPoint contours[k] with
  | some p =>
    ((List.finRange contours.length).filter fun m => m ≠ k && pointInRing p contours[m]).length
  | none => 0

/-- The contours one deeper that lie in a contour. -/
def holes (k : Fin contours.length) : List (Ring K) :=
  ((List.finRange contours.length).filter fun m =>
    m ≠ k && depth interiorPoint contours m = depth interiorPoint contours k + 1 &&
      (interiorPoint contours[m]).any (pointInRing · contours[k])).map (contours[·])

/-- The polygons of a region. -/
def assembleRegion : List (Polygon (Ring K)) :=
  (List.finRange contours.length).filterMap fun k =>
    match interiorPoint contours[k] with
    -- a contour without an inside fills nothing
    | none => none
    | some _ =>
      if depth interiorPoint contours k % 2 ≠ 0 then none
      else some ⟨contours[k], holes interiorPoint contours k⟩

/-- The point that a contour is probed with lies inside it. -/
def ProbeExact : Prop :=
  ∀ ring : Ring K, (inside ring).Nonempty → ∃ p, interiorPoint ring = some p ∧ p ∈ inside ring

/-- Contours that nest, and are not probed in one another but in one around them. -/
structure Nests : Prop where
  /-- Of any two, one lies in the other, or they lie apart. -/
  apart : ∀ k m : Fin contours.length, k ≠ m →
    inside contours[k] ⊂ inside contours[m] ∨ inside contours[m] ⊂ inside contours[k]
      ∨ Disjoint (inside contours[k]) (inside contours[m])
  /-- A contour is probed only in contours around it. -/
  probed : ∀ k m : Fin contours.length, k ≠ m → ∀ p, interiorPoint contours[k] = some p →
    p ∈ inside contours[m] → inside contours[k] ⊆ inside contours[m]

variable {interiorPoint contours} {x : Coord K} {k : Fin contours.length}

/-- The contours around a point. -/
def around (contours : List (Ring K)) (x : Coord K) : Finset (Fin contours.length) :=
  Finset.univ.filter fun k => pointInRing x contours[k] = true

theorem mem_around : k ∈ around contours x ↔ x ∈ inside contours[k] := by
  simp [around, inside]

/-- The places of a list at which something holds, counted. -/
theorem length_filter_finRange (n : ℕ) (p : Fin n → Bool) :
    ((List.finRange n).filter p).length = (Finset.univ.filter fun k => p k = true).card := by
  rw [← List.toFinset_card_of_nodup ((List.nodup_finRange n).filter p)]
  congr 1
  ext k
  simp

theorem card_around : (around contours x).card = contours.countP (pointInRing x) := by
  have hcontours : contours = (List.finRange contours.length).map (contours[·]) :=
    (List.map_getElem_finRange contours).symm
  conv_rhs => rw [hcontours]
  rw [List.countP_map, List.countP_eq_length_filter, length_filter_finRange]
  rfl

theorem mem_assembleRegion {poly : Polygon (Ring K)} :
    poly ∈ assembleRegion interiorPoint contours ↔ ∃ k : Fin contours.length,
      (interiorPoint contours[k]).isSome = true ∧ depth interiorPoint contours k % 2 = 0
        ∧ poly = ⟨contours[k], holes interiorPoint contours k⟩ := by
  simp only [assembleRegion, List.mem_filterMap, List.mem_finRange, true_and]
  refine exists_congr fun k => ?_
  cases interiorPoint contours[k] with
  | none => simp
  | some p =>
    by_cases heven : depth interiorPoint contours k % 2 = 0
    · simp [heven, eq_comm]
    · simp [heven]

theorem mem_holes {hole : Ring K} :
    hole ∈ holes interiorPoint contours k ↔ ∃ m : Fin contours.length, m ≠ k
      ∧ depth interiorPoint contours m = depth interiorPoint contours k + 1
      ∧ (∃ p, interiorPoint contours[m] = some p ∧ p ∈ inside contours[k])
      ∧ contours[m] = hole := by
  simp [holes, inside, and_assoc, Option.any_eq_true]

open Classical in
/-- **The depth of a contour around a point** is its level among the contours around the point. -/
theorem depth_eq (hprobe : ProbeExact interiorPoint) (h : Nests interiorPoint contours)
    (hk : x ∈ inside contours[k]) :
    depth interiorPoint contours k
      = (above (fun m : Fin contours.length => inside contours[m]) (around contours x) k).card := by
  obtain ⟨p, hp, hpk⟩ := hprobe contours[k] ⟨x, hk⟩
  unfold depth
  rw [hp]
  dsimp only
  rw [length_filter_finRange]
  congr 1
  ext m
  simp only [above, Finset.mem_filter, Finset.mem_univ, true_and, mem_around, Bool.and_eq_true,
    decide_eq_true_eq]
  constructor
  · rintro ⟨hne, hpm⟩
    have hsub := h.probed k m (Ne.symm hne) p hp hpm
    refine ⟨hsub hk, ?_⟩
    rcases h.apart k m (Ne.symm hne) with hlt | hlt | hdisjoint
    · exact hlt
    · exact absurd hsub hlt.2
    · exact absurd hpm (Set.disjoint_left.mp hdisjoint hpk)
  · rintro ⟨-, hlt⟩
    exact ⟨fun heq => absurd (heq ▸ hlt) (ssubset_irrefl _), hlt.1 hpk⟩

open Classical in
/-- **The polygons of a region cover what the even-odd rule says**, if its contours nest. -/
theorem exists_mem_solid_iff (hprobe : ProbeExact interiorPoint) (h : Nests interiorPoint contours) :
    (∃ poly ∈ assembleRegion interiorPoint contours, x ∈ solid poly) ↔ x ∈ evenOdd contours := by
  have hchain : ∀ k ∈ around contours x, ∀ m ∈ around contours x, k ≠ m →
      inside contours[k] ⊂ inside contours[m] ∨ inside contours[m] ⊂ inside contours[k] := by
    intro k hk m hm hne
    rcases h.apart k m hne with hlt | hlt | hdisjoint
    · exact .inl hlt
    · exact .inr hlt
    · exact absurd (mem_around.mp hm) (Set.disjoint_left.mp hdisjoint (mem_around.mp hk))
  have hinnermost := exists_innermost_iff hchain
  rw [card_around] at hinnermost
  refine Iff.trans ?_ hinnermost
  constructor
  · rintro ⟨poly, hpoly, hx, hholes⟩
    obtain ⟨k, -, heven, rfl⟩ := mem_assembleRegion.mp hpoly
    refine ⟨k, mem_around.mpr hx, (depth_eq hprobe h hx) ▸ heven, fun m hm heq => ?_⟩
    -- a contour one deeper around the point is a hole
    have hxm := mem_around.mp hm
    refine hholes contours[m] (mem_holes.mpr ⟨m, ?_, ?_, ?_, rfl⟩) hxm
    · rintro rfl
      omega
    · rw [depth_eq hprobe h hx, depth_eq hprobe h hxm, heq]
    · obtain ⟨p, hp, hpm⟩ := hprobe contours[m] ⟨x, hxm⟩
      refine ⟨p, hp, ?_⟩
      have hne : k ≠ m := by
        rintro rfl
        omega
      rcases hchain k (mem_around.mpr hx) m hm hne with hlt | hlt
      · have hlevels := card_above_lt_of_ssubset (s := fun j : Fin contours.length =>
          inside contours[j]) hm hlt
        omega
      · exact hlt.1 hpm
  · rintro ⟨k, hk, heven, hlast⟩
    have hx := mem_around.mp hk
    obtain ⟨p, hp, -⟩ := hprobe contours[k] ⟨x, hx⟩
    refine ⟨_, mem_assembleRegion.mpr ⟨k, by rw [hp]; rfl, (depth_eq hprobe h hx).symm ▸ heven, rfl⟩,
      hx, fun hole hhole hxhole => ?_⟩
    obtain ⟨m, -, hdepth, -, rfl⟩ := mem_holes.mp hhole
    rw [depth_eq hprobe h hx, depth_eq hprobe h hxhole] at hdepth
    exact hlast m (mem_around.mpr hxhole) hdepth

end Contours

end Galdr.Gerber
