import Galdr.Libm

/-!
# The paths a tool cuts

A path comes as a list of points, or as a closed chain of vertices each of which
bulges to the next. Either is reduced to a start and a list of segments. A bulge
becomes an arc about a centre that is given from the start of the arc.

A path that counts as closed ends where it starts, within a nanometre
(`LawfulCutRing`).
-/

namespace Galdr.Eitri

variable {K : Type} [Field K] [LinearOrder K]

/-- A point of the plane. -/
structure Point (K : Type) where
  /-- The first coordinate. -/
  x : K
  /-- The second coordinate. -/
  y : K
  deriving DecidableEq

/-- `a.distance_to(b) <= r`, of a radius that is not negative: the hypotenuse is
compared by its square. -/
def Point.Within (a b : Point K) (r : K) : Prop :=
  (a.x - b.x) * (a.x - b.x) + (a.y - b.y) * (a.y - b.y) ≤ r * r

instance (a b : Point K) (r : K) : Decidable (a.Within b r) :=
  inferInstanceAs (Decidable (_ ≤ _))

theorem Point.within_self [IsStrictOrderedRing K] (a : Point K) (r : K) : a.Within a r := by
  show (a.x - a.x) * (a.x - a.x) + (a.y - a.y) * (a.y - a.y) ≤ r * r
  rw [sub_self, sub_self, mul_zero, add_zero]
  exact mul_self_nonneg r

/-! ## Arcs -/

/-- The turning sense of an arc. -/
inductive ArcDir
  /-- Counter-clockwise. -/
  | ccw
  /-- Clockwise. -/
  | cw
  deriving DecidableEq, Repr

/-- The centre of an arc, from its start. -/
structure ArcOffset (K : Type) where
  /-- The first coordinate. -/
  i : K
  /-- The second coordinate. -/
  j : K
  deriving DecidableEq

/-- The smallest bulge that is an arc, and the shortest chord. -/
def bulgeEpsilon : K := 1 / 10 ^ 12

/-- The arc of a bulge between two points, if there is one. -/
def bulgeToArc (p₀ p₁ : Point K) (bulge : K) : Option (ArcOffset K × ArcDir) :=
  if |bulge| < bulgeEpsilon then none
  else
    let dx := p₁.x - p₀.x
    let dy := p₁.y - p₀.y
    if dx * dx + dy * dy < bulgeEpsilon * bulgeEpsilon then none
    else
      -- the centre lies on the left normal of the chord, through its midpoint
      let k := (1 - bulge * bulge) / (4 * bulge)
      let cx := (p₀.x + p₁.x) / 2 + k * -dy
      let cy := (p₀.y + p₁.y) / 2 + k * dx
      some (⟨cx - p₀.x, cy - p₀.y⟩, if 0 < bulge then .ccw else .cw)

/-- A segment of a path. -/
inductive Segment (K : Type)
  /-- A straight cut. -/
  | line (x y : K)
  /-- An arc about a centre. -/
  | arc (x y : K) (offset : ArcOffset K) (dir : ArcDir)
  deriving DecidableEq

/-- Where a segment ends. -/
def Segment.dest : Segment K → Point K
  | .line x y => ⟨x, y⟩
  | .arc x y _ _ => ⟨x, y⟩

/-! ## The two kinds of path -/

/-- A path that can be cut. -/
class CutRing (K : outParam Type) (G : Type) where
  /-- Where the tool plunges before the cut. -/
  start : G → Point K
  /-- The segments, in order. -/
  segments : G → List (Segment K)
  /-- The path counts as closed. -/
  isClosed : G → Bool

/-- Where a path ends. -/
def CutRing.finish {G : Type} [CutRing K G] (g : G) : Point K :=
  ((segments g).getLast?.map Segment.dest).getD (start g)

/-- A path of points. -/
structure RingPath (K : Type) where
  /-- Its vertices, in order. -/
  points : List (Point K)
  deriving DecidableEq

/-- How far apart the ends of a closed path may be. -/
def ringCloseEps : K := 1 / 10 ^ 9

namespace RingPath

/-- The first point, or the origin. -/
def start (r : RingPath K) : Point K := r.points.head?.getD ⟨0, 0⟩

/-- The last point, or the origin. -/
def finish (r : RingPath K) : Point K := r.points.getLast?.getD ⟨0, 0⟩

/-- The first and the last point coincide. -/
def isClosed (r : RingPath K) : Bool :=
  if r.points.length < 2 then true else decide (r.start.Within r.finish ringCloseEps)

/-- A cut to each point after the first. -/
def segments (r : RingPath K) : List (Segment K) :=
  (r.points.drop 1).map fun p => .line p.x p.y

instance : CutRing K (RingPath K) where
  start := start
  segments := segments
  isClosed := isClosed

end RingPath

/-- A vertex of a chain, and the bulge to the next one. -/
structure ArcVertex (K : Type) where
  /-- The first coordinate. -/
  x : K
  /-- The second coordinate. -/
  y : K
  /-- The tangent of a quarter of the angle swept to the next vertex. -/
  bulge : K
  deriving DecidableEq

/-- A closed chain of arcs. -/
structure ArcPolyline (K : Type) where
  /-- Its vertices, in order. -/
  vertices : List (ArcVertex K)
  deriving DecidableEq

namespace ArcPolyline

/-- The first vertex, or the origin. -/
def start (p : ArcPolyline K) : Point K :=
  (p.vertices.head?.map fun v => ⟨v.x, v.y⟩).getD ⟨0, 0⟩

/-- The segment between two vertices. -/
def segment (v₀ v₁ : ArcVertex K) : Segment K :=
  match bulgeToArc ⟨v₀.x, v₀.y⟩ ⟨v₁.x, v₁.y⟩ v₀.bulge with
  | some (offset, dir) => .arc v₁.x v₁.y offset dir
  | none => .line v₁.x v₁.y

/-- A segment from each vertex to the next, around. -/
def segments (p : ArcPolyline K) : List (Segment K) :=
  p.vertices.zipWith segment (p.vertices.rotate 1)

instance : CutRing K (ArcPolyline K) where
  start := start
  segments := segments
  isClosed _ := true

end ArcPolyline

/-! ## Closed paths -/

/-- A path that counts as closed ends where it starts. -/
class LawfulCutRing (K : outParam Type) [Field K] [LinearOrder K] (G : Type)
    [CutRing K G] : Prop where
  /-- Its end is near its start. -/
  within_of_isClosed : ∀ g : G, CutRing.isClosed g = true →
    (CutRing.start g).Within (CutRing.finish g) ringCloseEps

section Lawful

variable [IsStrictOrderedRing K]

omit [IsStrictOrderedRing K] in
/-- A path of two points or more ends at its last point. -/
theorem RingPath.finish_eq (r : RingPath K) (h : ¬r.points.length < 2) :
    CutRing.finish r = r.finish := by
  obtain ⟨points⟩ := r
  match points with
  | [] => exact absurd Nat.two_pos h
  | [_] => exact absurd Nat.one_lt_two h
  | p :: q :: rest =>
    show (((q :: rest).map fun p => Segment.line p.x p.y).getLast?.map Segment.dest).getD p
      = (p :: q :: rest).getLast?.getD ⟨0, 0⟩
    rw [List.getLast?_map, Option.map_map, List.getLast?_cons_cons]
    have hid : (Segment.dest ∘ fun p : Point K => Segment.line p.x p.y) = id := by
      funext p
      rfl
    rw [hid, Option.map_id, id_eq, List.getLast?_eq_some_getLast (List.cons_ne_nil q rest)]
    rfl

instance : LawfulCutRing K (RingPath K) where
  within_of_isClosed r hclosed := by
    show r.start.Within (CutRing.finish r) ringCloseEps
    by_cases h : r.points.length < 2
    · -- a single point has no segments
      have hnil : r.points.drop 1 = [] := List.drop_eq_nil_of_le (by omega)
      have hfinish : CutRing.finish r = r.start := by
        show (((r.points.drop 1).map fun p => Segment.line p.x p.y).getLast?.map
          Segment.dest).getD r.start = r.start
        rw [hnil]
        rfl
      rw [hfinish]
      exact r.start.within_self _
    · rw [RingPath.finish_eq r h]
      have hclosed : (if r.points.length < 2 then true
          else decide (r.start.Within r.finish ringCloseEps)) = true := hclosed
      rw [if_neg h] at hclosed
      exact of_decide_eq_true hclosed

omit [IsStrictOrderedRing K] in
theorem ArcPolyline.dest_segment (v₀ v₁ : ArcVertex K) :
    (ArcPolyline.segment v₀ v₁).dest = ⟨v₁.x, v₁.y⟩ := by
  unfold ArcPolyline.segment
  split <;> rfl

omit [IsStrictOrderedRing K] in
/-- A chain of arcs comes back to its first vertex. -/
theorem ArcPolyline.finish_eq (p : ArcPolyline K) : CutRing.finish p = p.start := by
  obtain ⟨vertices⟩ := p
  match vertices with
  | [] => rfl
  | v :: rest =>
    show (((v :: rest).zipWith ArcPolyline.segment ((v :: rest).rotate 1)).getLast?.map
      Segment.dest).getD ⟨v.x, v.y⟩ = ⟨v.x, v.y⟩
    have hrotate : (v :: rest).rotate 1 = rest ++ [v] := by
      rw [List.rotate_cons_succ, List.rotate_zero]
    have hsplit : v :: rest = (v :: rest).dropLast ++ [(v :: rest).getLast (by simp)] :=
      (List.dropLast_append_getLast _).symm
    have hlength : (v :: rest).dropLast.length = rest.length := by simp
    rw [hrotate]
    nth_rewrite 1 [hsplit]
    rw [List.zipWith_append hlength]
    simp [ArcPolyline.dest_segment]

instance : LawfulCutRing K (ArcPolyline K) where
  within_of_isClosed p _ := by
    show p.start.Within (CutRing.finish p) ringCloseEps
    rw [ArcPolyline.finish_eq]
    exact p.start.within_self _

end Lawful

end Galdr.Eitri
