import Galdr.OffsetSets
import Mathlib.Analysis.InnerProductSpace.PiL2

/-!
# The geometry backend

The CAM operations speak to a backend that offsets, unites and winds polygons. A polygon is
its outer ring and its holes; what a ring is belongs to the backend.

The backend is judged by the plane. A `Reading` says which points a ring passes over and
which points a polygon covers. An operation is exact if its polygons cover what they should
cover, and their rings pass over the boundary of that.
-/

namespace Galdr.Geo

open Metric Set

/-- What an operation of the engine fails with. -/
inductive Error
  /-- The token was cancelled. -/
  | cancelled
  /-- The backend failed. -/
  | geometry (text : String)
  /-- The geometry or a parameter is not valid. -/
  | invalidGeometry (text : String)
  deriving DecidableEq

/-- How the corner of an offset is joined. -/
inductive JoinType
  /-- By an arc. -/
  | round
  /-- By a mitre, up to a limit. -/
  | miter
  /-- By a square edge. -/
  | square
  deriving DecidableEq

/-- The way around a ring. -/
inductive WindingDirection
  /-- Counter-clockwise. -/
  | ccw
  /-- Clockwise. -/
  | cw
  deriving DecidableEq

/-- The other way around. -/
def WindingDirection.reversed : WindingDirection → WindingDirection
  | .ccw => .cw
  | .cw => .ccw

/-- An outer ring with holes. -/
structure Polygon (R : Type) where
  /-- The outer ring. -/
  exterior : R
  /-- The rings of the holes. -/
  interiors : List R
  deriving DecidableEq

/-- The rings of a polygon, the outer one first. -/
def Polygon.rings {R : Type} (p : Polygon R) : List R := p.exterior :: p.interiors

/-- The operations of a backend. Distances are in millimetres. -/
structure GeoBackend (R : Type) where
  /-- A polygon offset by a distance, outward if it is positive, with a join and a mitre
  limit. -/
  offset : Polygon R → ℚ → JoinType → ℚ → Except Error (List (Polygon R))
  /-- Many polygons merged. -/
  unionAll : List (Polygon R) → Except Error (List (Polygon R))
  /-- The first polygons without the second. -/
  difference : List (Polygon R) → List (Polygon R) → Except Error (List (Polygon R))
  /-- A polygon with its outer ring wound one way, and its holes the other way. -/
  normalizeWinding : Polygon R → WindingDirection → Polygon R

/-! ## Steps that may fail -/

section Fallible

variable {A C E : Type}

/-- A step that succeeds went through its first part. -/
theorem exists_ok_of_bind {x : Except E A} {f : A → Except E C} {c : C}
    (h : (x >>= f) = .ok c) : ∃ a, x = .ok a ∧ f a = .ok c := by
  cases x with
  | error e => cases h
  | ok a => exact ⟨a, rfl, h⟩

/-- A traversal that succeeds succeeded at its first element and at the rest. -/
theorem exists_ok_of_mapM_cons {f : A → Except E C} {a : A} {l : List A} {cs : List C}
    (h : (a :: l).mapM f = .ok cs) :
    ∃ c rest, f a = .ok c ∧ l.mapM f = .ok rest ∧ cs = c :: rest := by
  rw [List.mapM_cons] at h
  obtain ⟨c, hc, h⟩ := exists_ok_of_bind h
  obtain ⟨rest, hrest, h⟩ := exists_ok_of_bind h
  exact ⟨c, rest, hc, hrest, (Except.ok.inj h).symm⟩

/-- A traversal succeeds if every step does. -/
theorem exists_mapM_eq_ok {f : A → Except E C} {l : List A} (h : ∀ a ∈ l, ∃ c, f a = .ok c) :
    ∃ cs, l.mapM f = .ok cs := by
  induction l with
  | nil => exact ⟨[], rfl⟩
  | cons a l ih =>
    obtain ⟨c, hc⟩ := h a List.mem_cons_self
    obtain ⟨cs, hcs⟩ := ih fun b hb => h b (List.mem_cons_of_mem a hb)
    refine ⟨c :: cs, ?_⟩
    rw [List.mapM_cons, hc, hcs]
    rfl

/-- What holds of some result of a traversal holds of some source. -/
theorem exists_mem_iff_of_mapM {f : A → Except E C} {P : C → Prop} {Q : A → Prop}
    {l : List A} {cs : List C} (h : l.mapM f = .ok cs)
    (hPQ : ∀ a ∈ l, ∀ c, f a = .ok c → (P c ↔ Q a)) : (∃ c ∈ cs, P c) ↔ ∃ a ∈ l, Q a := by
  induction l generalizing cs with
  | nil =>
    obtain rfl : [] = cs := Except.ok.inj h
    simp
  | cons a l ih =>
    obtain ⟨c, rest, hc, hrest, rfl⟩ := exists_ok_of_mapM_cons h
    have hl : (∃ c ∈ rest, P c) ↔ ∃ a ∈ l, Q a :=
      ih hrest fun a ha => hPQ a (List.mem_cons_of_mem _ ha)
    simp only [List.mem_cons, exists_eq_or_imp]
    exact or_congr (hPQ a List.mem_cons_self c hc) hl

/-- The results of a traversal, by position. -/
theorem getElem?_of_mapM {f : A → Except E C} {l : List A} {cs : List C}
    (h : l.mapM f = .ok cs) (i : ℕ) : l[i]?.map f = cs[i]?.map .ok := by
  induction l generalizing cs i with
  | nil =>
    obtain rfl : [] = cs := Except.ok.inj h
    rfl
  | cons a l ih =>
    obtain ⟨c, rest, hc, hrest, rfl⟩ := exists_ok_of_mapM_cons h
    cases i with
    | zero => exact congrArg some hc
    | succ i => exact ih hrest i

/-- Every step of a traversal that succeeds does. -/
theorem exists_ok_of_mem_of_mapM {f : A → Except E C} {l : List A} {cs : List C}
    (h : l.mapM f = .ok cs) {a : A} (ha : a ∈ l) : ∃ c ∈ cs, f a = .ok c := by
  obtain ⟨i, hi⟩ := List.mem_iff_getElem?.mp ha
  have hstep := getElem?_of_mapM h i
  rw [hi] at hstep
  obtain ⟨c, hc, heq⟩ := Option.map_eq_some_iff.mp hstep.symm
  exact ⟨c, List.mem_of_getElem? hc, heq.symm⟩

/-- What each step of a fold keeps, the fold keeps. -/
theorem foldlM_invariant {P : C → Prop} {f : C → A → Except E C}
    (hstep : ∀ c a c', P c → f c a = .ok c' → P c') {l : List A} {c c' : C} (hc : P c)
    (h : l.foldlM f c = .ok c') : P c' := by
  induction l generalizing c with
  | nil =>
    obtain rfl : c = c' := Except.ok.inj h
    exact hc
  | cons a l ih =>
    rw [List.foldlM_cons] at h
    obtain ⟨next, hnext, hrest⟩ := exists_ok_of_bind h
    exact ih (hstep c a next hc hnext) hrest

end Fallible

/-! ## The plane -/

/-- The plane, in millimetres. -/
abbrev Plane := EuclideanSpace ℝ (Fin 2)

/-- What the rings and polygons of a backend are in the plane. -/
structure Reading (R : Type) where
  /-- The points that a ring passes over. -/
  trace : R → Set Plane
  /-- The points that a polygon covers. -/
  solid : Polygon R → Set Plane

namespace Reading

variable {R : Type} (M : Reading R)

/-- The points that some polygon covers. -/
def region (polys : List (Polygon R)) : Set Plane := ⋃ p ∈ polys, M.solid p

/-- The points that some ring passes over. -/
def outline (polys : List (Polygon R)) : Set Plane := ⋃ p ∈ polys, ⋃ ring ∈ p.rings, M.trace ring

theorem mem_region {polys : List (Polygon R)} {x : Plane} :
    x ∈ M.region polys ↔ ∃ p ∈ polys, x ∈ M.solid p := by
  simp [region]

theorem mem_outline {polys : List (Polygon R)} {x : Plane} :
    x ∈ M.outline polys ↔ ∃ p ∈ polys, ∃ ring ∈ p.rings, x ∈ M.trace ring := by
  simp [outline]

/-- The regions of many lists, taken together. -/
theorem region_flatMap {A : Type*} (l : List A) (f : A → List (Polygon R)) :
    M.region (l.flatMap f) = ⋃ a ∈ l, M.region (f a) := by
  ext x
  simp only [mem_region, List.mem_flatMap, mem_iUnion, exists_prop]
  constructor
  · rintro ⟨p, ⟨a, ha, hp⟩, hx⟩
    exact ⟨a, ha, p, hp, hx⟩
  · rintro ⟨a, ha, p, hp, hx⟩
    exact ⟨p, ⟨a, ha, hp⟩, hx⟩

/-- Polygons that cover a set, with rings over its boundary. -/
structure Fills (polys : List (Polygon R)) (s : Set Plane) : Prop where
  /-- They cover the set. -/
  region : M.region polys = s
  /-- Their rings pass over its boundary. -/
  outline : M.outline polys = frontier s

/-- An outward offset with a join is the set of the points within the distance. -/
def OffsetExact (B : GeoBackend R) (join : JoinType) (limit : ℚ) : Prop :=
  ∀ p d polys, 0 ≤ d → B.offset p d join limit = .ok polys →
    M.Fills polys (cthickening (d : ℝ) (M.solid p))

/-- A union covers what its polygons cover. -/
def UnionExact (B : GeoBackend R) : Prop :=
  ∀ polys merged, B.unionAll polys = .ok merged → M.Fills merged (M.region polys)

/-- Winding a polygon moves none of its rings. -/
def WindingExact (B : GeoBackend R) : Prop :=
  ∀ p direction, (B.normalizeWinding p direction).rings.map M.trace = p.rings.map M.trace

end Reading

end Galdr.Geo
