import Galdr.CutRing
import Galdr.GeoBackend
import Galdr.PlanarCrossings

/-!
# Links that stay in the material

A link between two cuts is taken for safe if it crosses no edge of the region properly and the
region contains its midpoint (`segmentWithin`). The region itself, with its boundary, is what it
contains and its edges (`Containment.solid`); whether a point is contained may change only across
an edge.

A link that touches the boundary at a vertex may leave the region there and come back: it stays
inside exactly if the middle of every piece between such vertices does (`Clear`).
-/

namespace Galdr.Paint

open Geo (Polygon)
open Planar

section Region

variable {K : Type} [Field K] [LinearOrder K]

/-- A region: polygons whose rings are lists of vertices, the first one again at the end. -/
abbrev MultiPolygon (K : Type) := List (Polygon (List (K × K)))

/-- The edges of a ring. -/
def lines (ring : List (K × K)) : List ((K × K) × (K × K)) := ring.zip ring.tail

/-- The edges of a region, of outer rings and of holes. -/
def edges (region : MultiPolygon K) : List ((K × K) × (K × K)) :=
  region.flatMap fun poly => poly.rings.flatMap lines

/-- The midpoint of a connector. -/
def middle (a b : K × K) : K × K := ((a.1 + b.1) * (1 / 2), (a.2 + b.2) * (1 / 2))

/-- Whether the connector of two points stays within a region: it crosses no edge properly, and
its midpoint is contained. -/
def segmentWithin (contains : MultiPolygon K → K × K → Bool) (region : MultiPolygon K)
    (a b : K × K) : Bool :=
  if (edges region).any fun edge => ProperCrossing a b edge.1 edge.2 then false
  else contains region (middle a b)

theorem segmentWithin_iff {contains : MultiPolygon K → K × K → Bool} {region : MultiPolygon K}
    {a b : K × K} : segmentWithin contains region a b = true ↔
      (∀ e ∈ edges region, ¬ProperCrossing a b e.1 e.2) ∧ contains region (middle a b) = true := by
  unfold segmentWithin
  split
  next hany =>
    obtain ⟨e, he, hcross⟩ := List.any_eq_true.1 hany
    exact iff_of_false Bool.false_ne_true fun h => h.1 e he (of_decide_eq_true hcross)
  next hany =>
    refine ⟨fun h => ⟨fun e he hcross => hany ?_, h⟩, And.right⟩
    exact List.any_eq_true.2 ⟨e, he, decide_eq_true hcross⟩

end Region

/-! ## The region with its boundary -/

/-- The points that an engine says a region contains. They change only across edges. -/
structure Containment where
  /-- Whether a region contains a point, its boundary not counted. -/
  contains : MultiPolygon ℝ → ℝ × ℝ → Bool
  /-- Where the answer changes, there is an edge. -/
  frontier_subset : ∀ region, ∀ z ∈ frontier {p | contains region p = true},
    ∃ e ∈ edges region, z ∈ segment ℝ e.1 e.2

namespace Containment

variable (G : Containment) (region : MultiPolygon ℝ)

/-- The points on the edges of a region. -/
def boundary (region : MultiPolygon ℝ) : Set (ℝ × ℝ) :=
  {z | ∃ e ∈ edges region, z ∈ segment ℝ e.1 e.2}

/-- The closed region: what it contains, and its edges. -/
def solid : Set (ℝ × ℝ) := {p | G.contains region p = true} ∪ boundary region

theorem isClosed_boundary : IsClosed (boundary region) := by
  have hunion : boundary region
      = ⋃ e ∈ {e | e ∈ edges region}, segment ℝ e.1 e.2 := by
    ext z
    simp [boundary]
  rw [hunion]
  refine (List.finite_toSet (edges region)).isClosed_biUnion fun e _ => ?_
  rw [segment_eq_image_lineMap]
  exact (isCompact_Icc.image AffineMap.lineMap_continuous).isClosed

theorem isClosed_solid : IsClosed (G.solid region) := by
  rw [← closure_subset_iff_isClosed]
  unfold solid
  rw [closure_union, (isClosed_boundary region).closure_eq]
  rintro z (hz | hz)
  · by_cases hin : G.contains region z = true
    · exact .inl hin
    · have hfrontier : z ∈ frontier {p | G.contains region p = true} :=
        ⟨hz, fun h => hin (show z ∈ {p | G.contains region p = true} from interior_subset h)⟩
      exact .inr (G.frontier_subset region z hfrontier)
  · exact .inr hz

theorem mem_boundary_of_mem_frontier {z : ℝ × ℝ} (h : z ∈ frontier (G.solid region)) :
    z ∈ boundary region := by
  rcases frontier_union_subset _ _ h with ⟨hz, -⟩ | ⟨-, hz⟩
  · exact G.frontier_subset region z hz
  · exact (isClosed_boundary region).frontier_subset hz

/-! ## Clear links -/

/-- What decides whether the test of a link can be relied on: a link that is not refused for a
proper crossing or its midpoint has the middles of all its pieces in the region. -/
def Clear (a b : ℝ × ℝ) : Prop :=
  (∃ e ∈ edges region, ProperCrossing a b e.1 e.2) ∨ G.contains region (middle a b) = false
    ∨ PiecesWithin (G.solid region) (edges region) a b

variable {G region} {a b : ℝ × ℝ}

/-- A link that goes through no vertex is clear. -/
theorem Clear.of_no_vertex (ha : a ∈ G.solid region) (hb : b ∈ G.solid region)
    (hfree : ∀ e ∈ edges region, e.1 ∉ openSegment ℝ a b ∧ e.2 ∉ openSegment ℝ a b) :
    G.Clear region a b := by
  rcases hmid : G.contains region (middle a b) with _ | _
  · exact .inr (.inl hmid)
  · refine .inr (.inr (.of_midpoint ha hb (.inl ?_) hfree))
    have hmiddle : midpoint ℝ a b = middle a b := by
      unfold middle
      rw [midpoint_eq_smul_add, invOf_eq_inv]
      ext
      · simp only [Prod.smul_fst, Prod.fst_add, smul_eq_mul]
        ring
      · simp only [Prod.smul_snd, Prod.snd_add, smul_eq_mul]
        ring
    rw [hmiddle]
    exact hmid

/-- A link that passes the test stays in the region exactly if it is clear. -/
theorem within_imp_subset_iff : (segmentWithin G.contains region a b = true →
    segment ℝ a b ⊆ G.solid region) ↔ G.Clear region a b := by
  have hiff (hproper : ∀ e ∈ edges region, ¬ProperCrossing a b e.1 e.2) :=
    segment_subset_iff (G.isClosed_solid region)
      (fun z hz => G.mem_boundary_of_mem_frontier region hz)
      (fun e he z hz => .inr ⟨e, he, hz⟩) hproper
  rw [segmentWithin_iff]
  constructor
  · intro h
    by_cases hcross : ∃ e ∈ edges region, ProperCrossing a b e.1 e.2
    · exact .inl hcross
    · rcases hmid : G.contains region (middle a b) with _ | _
      · exact .inr (.inl hmid)
      · have hproper : ∀ e ∈ edges region, ¬ProperCrossing a b e.1 e.2 :=
          fun e he hproper => hcross ⟨e, he, hproper⟩
        exact .inr (.inr ((hiff hproper).1 (h ⟨hproper, hmid⟩)))
  · rintro hclear ⟨hproper, hmid⟩
    rcases hclear with ⟨e, he, hcross⟩ | hout | hpieces
    · exact absurd hcross (hproper e he)
    · exact absurd (hmid.symm.trans hout) Bool.noConfusion
    · exact (hiff hproper).2 hpieces

end Containment

/-! ## A link over a gap -/

/-- A square that stands on a corner. -/
def diamond (cx r : ℝ) : List (ℝ × ℝ) := [(cx + r, 0), (cx, r), (cx - r, 0), (cx, -r), (cx + r, 0)]

theorem mem_diamond {cx r : ℝ} (hr : 0 < r) {z : ℝ × ℝ} (hz : |z.1 - cx| + |z.2| = r) :
    ∃ e ∈ lines (diamond cx r), z ∈ segment ℝ e.1 e.2 := by
  -- how far the point is from the corner on the first axis to that on the second
  obtain ⟨w, hw⟩ : ∃ w, |z.2| = w * r := ⟨|z.2| / r, (div_mul_cancel₀ _ hr.ne').symm⟩
  have hx : |z.1 - cx| = (1 - w) * r := by linarith
  have hw₀ : 0 ≤ w := nonneg_of_mul_nonneg_left (hw ▸ abs_nonneg z.2) hr
  have hw₁ : 0 ≤ 1 - w := nonneg_of_mul_nonneg_left (hx ▸ abs_nonneg (z.1 - cx)) hr
  have hon {x y : ℝ} (hzx : z.1 = cx + (1 - w) * x) (hzy : z.2 = w * y) :
      z ∈ segment ℝ (cx + x, 0) (cx, y) := by
    refine ⟨1 - w, w, hw₁, hw₀, sub_add_cancel 1 w, Prod.ext ?_ ?_⟩
    · show (1 - w) * (cx + x) + w * cx = z.1
      rw [hzx]
      ring
    · show (1 - w) * 0 + w * y = z.2
      rw [hzy]
      ring
  unfold lines diamond
  rcases eq_or_eq_neg_of_abs_eq hx with hx | hx <;> rcases eq_or_eq_neg_of_abs_eq hw with hw | hw
  · exact ⟨((cx + r, 0), (cx, r)), by simp, hon (by linarith) hw⟩
  · refine ⟨((cx, -r), (cx + r, 0)), by simp, ?_⟩
    rw [segment_symm]
    exact hon (by linarith) (by linarith)
  · refine ⟨((cx, r), (cx - r, 0)), by simp, ?_⟩
    rw [segment_symm, sub_eq_add_neg]
    exact hon (by linarith) hw
  · refine ⟨((cx - r, 0), (cx, -r)), by simp, ?_⟩
    rw [sub_eq_add_neg]
    exact hon (by linarith) (by linarith)

/-- Two squares that stand on corners, a gap apart. -/
def diamonds : MultiPolygon ℝ := [⟨diamond 0 4, []⟩, ⟨diamond 10 1, []⟩]

/-- The inside of the two squares. -/
def inDiamonds : Set (ℝ × ℝ) := {z | |z.1 - 0| + |z.2| < 4} ∪ {z | |z.1 - 10| + |z.2| < 1}

theorem mem_edges_of_mem_frontier {z : ℝ × ℝ} (h : z ∈ frontier inDiamonds) :
    ∃ e ∈ edges diamonds, z ∈ segment ℝ e.1 e.2 := by
  have hedges : edges diamonds = lines (diamond 0 4) ++ lines (diamond 10 1) := rfl
  rw [hedges]
  rcases frontier_union_subset _ _ h with ⟨hz, -⟩ | ⟨-, hz⟩
  · have hfar := frontier_lt_subset_eq (by fun_prop) (by fun_prop) hz
    obtain ⟨e, he, hmem⟩ := mem_diamond (by norm_num) hfar
    exact ⟨e, List.mem_append_left _ he, hmem⟩
  · have hfar := frontier_lt_subset_eq (by fun_prop) (by fun_prop) hz
    obtain ⟨e, he, hmem⟩ := mem_diamond (by norm_num) hfar
    exact ⟨e, List.mem_append_right _ he, hmem⟩

open Classical in
/-- What is contained in the two squares. -/
noncomputable def diamondContainment : Containment where
  contains region z := decide (region = diamonds ∧ z ∈ inDiamonds)
  frontier_subset := by
    intro region z hz
    by_cases h : region = diamonds
    · subst h
      refine mem_edges_of_mem_frontier ?_
      simpa using hz
    · simp [h] at hz

theorem contains_diamonds {z : ℝ × ℝ} :
    diamondContainment.contains diamonds z = true ↔ z ∈ inDiamonds := by
  simp [diamondContainment]

/-- The edges of the two squares end on the first axis, and lie left and right of the gap. -/
theorem edges_diamonds : ∀ e ∈ edges diamonds, (e.1.2 = 0 ∨ e.2.2 = 0)
    ∧ (e.1.1 ≤ 4 ∧ e.2.1 ≤ 4 ∨ 9 ≤ e.1.1 ∧ 9 ≤ e.2.1) := by
  intro e he
  have hedges : edges diamonds = lines (diamond 0 4) ++ lines (diamond 10 1) := rfl
  rw [hedges] at he
  simp only [lines, diamond, List.tail_cons, List.zip_cons_cons, List.zip_nil_right,
    List.cons_append, List.nil_append, List.mem_cons, List.not_mem_nil, or_false] at he
  rcases he with rfl | rfl | rfl | rfl | rfl | rfl | rfl | rfl <;> norm_num

/-- A link through the corners of two squares passes the test, for it crosses no edge properly and
its midpoint is in the first one, and leaves the region between them. -/
theorem not_within_imp_subset : ¬ ∀ (G : Containment) (region : MultiPolygon ℝ) (a b : ℝ × ℝ),
    segmentWithin G.contains region a b = true → segment ℝ a b ⊆ G.solid region := by
  intro h
  have hpass : segmentWithin diamondContainment.contains diamonds (-4, 0) (11, 0) = true := by
    rw [segmentWithin_iff]
    constructor
    · rintro e he ⟨hsides, -⟩
      have horient (c : ℝ × ℝ) : orient (-4, 0) (11, 0) c = 15 * c.2 := by
        show (11 - -4) * (c.2 - 0) - (0 - 0) * (c.1 - -4) = 15 * c.2
        ring
      rw [horient, horient] at hsides
      rcases (edges_diamonds e he).1 with hzero | hzero <;> simp [hzero] at hsides
    · refine contains_diamonds.2 (.inl ?_)
      show |(-4 + 11) * (1 / 2) - 0| + |(0 + 0) * (1 / 2)| < (4 : ℝ)
      norm_num
  have hgap : ((9 / 2, 0) : ℝ × ℝ) ∈ segment ℝ ((-4, 0) : ℝ × ℝ) (11, 0) := by
    refine ⟨13 / 30, 17 / 30, by norm_num, by norm_num, by norm_num, ?_⟩
    ext <;> norm_num
  rcases h diamondContainment diamonds (-4, 0) (11, 0) hpass hgap with hin | hon
  · rcases contains_diamonds.1 hin with hin | hin
    · have hfar : |(9 / 2 - 0 : ℝ)| + |(0 : ℝ)| < 4 := hin
      norm_num at hfar
    · have hfar : |(9 / 2 - 10 : ℝ)| + |(0 : ℝ)| < 1 := hin
      norm_num [abs_of_neg] at hfar
  · obtain ⟨e, he, u, v, hu, hv, huv, hsum⟩ := hon
    have hx : u * e.1.1 + v * e.2.1 = 9 / 2 := congrArg Prod.fst hsum
    rcases (edges_diamonds e he).2 with ⟨h₁, h₂⟩ | ⟨h₁, h₂⟩
    · nlinarith
    · nlinarith

end Galdr.Paint
