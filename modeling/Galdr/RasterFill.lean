import Galdr.FeedLinks

/-!
# Raster fill

A region is filled along parallel scan lines. The region is turned so that they are level
(`Rotation`), inset by the radius of the tool, and clipped; the spans are grouped into rows, which
are swept to and fro, and a span is linked to the one before it where `segmentWithin` allows it.

The paths are the sweep, split where no link is allowed (`boustrophedon_eq`), so every span is in
one path, once. The links stay in the inset region exactly if all of them are clear
(`raster_links_spec`).
-/

namespace Galdr.Paint

open Eitri (Point RingPath)
open Geo (Polygon JoinType)

variable {K : Type} [Field K] [LinearOrder K]

/-! ## Rotations -/

/-- A rotation about the origin, by its cosine and sine. -/
structure Rotation (K : Type) [Field K] where
  /-- The cosine. -/
  cos : K
  /-- The sine. -/
  sin : K
  /-- They are those of an angle. -/
  unit : cos * cos + sin * sin = 1

namespace Rotation

/-- A point turned. -/
def apply (t : Rotation K) (p : K × K) : K × K :=
  (t.cos * p.1 + -t.sin * p.2, t.sin * p.1 + t.cos * p.2)

/-- The turn by the negative angle. -/
def neg (t : Rotation K) : Rotation K := ⟨t.cos, -t.sin, by linear_combination t.unit⟩

omit [LinearOrder K] in
theorem neg_apply_apply (t : Rotation K) (p : K × K) : t.neg.apply (t.apply p) = p := by
  have h := t.unit
  ext
  · show t.cos * (t.cos * p.1 + -t.sin * p.2) + - -t.sin * (t.sin * p.1 + t.cos * p.2) = p.1
    linear_combination p.1 * h
  · show -t.sin * (t.cos * p.1 + -t.sin * p.2) + t.cos * (t.sin * p.1 + t.cos * p.2) = p.2
    linear_combination p.2 * h

/-- A turned segment is the segment of the turned ends. -/
theorem image_segment_apply (t : Rotation ℝ) (a b : ℝ × ℝ) :
    t.apply '' segment ℝ a b = segment ℝ (t.apply a) (t.apply b) := by
  have hlinear : IsLinearMap ℝ t.apply := by
    constructor
    · intro p q
      ext <;> simp only [apply, Prod.fst_add, Prod.snd_add] <;> ring
    · intro k p
      ext <;> simp only [apply, Prod.smul_fst, Prod.smul_snd, smul_eq_mul] <;> ring
  exact image_segment ℝ (hlinear.mk' t.apply).toAffineMap a b

/-- A turned link is in a turned region exactly if it was in the region. -/
theorem segment_subset_image_iff (t : Rotation ℝ) {a b : ℝ × ℝ} {S : Set (ℝ × ℝ)} :
    segment ℝ (t.apply a) (t.apply b) ⊆ t.apply '' S ↔ segment ℝ a b ⊆ S := by
  have hinjective : Function.Injective t.apply :=
    Function.LeftInverse.injective t.neg_apply_apply
  rw [← t.image_segment_apply]
  exact Set.image_subset_image_iff hinjective

end Rotation

/-- A polygon turned. -/
def rotatePolygon (t : Rotation K) (poly : Polygon (List (K × K))) : Polygon (List (K × K)) :=
  ⟨poly.exterior.map t.apply, poly.interiors.map fun ring => ring.map t.apply⟩

/-- A path turned. -/
def transformRing (path : RingPath K) (t : Rotation K) : RingPath K :=
  ⟨path.points.map fun p => ⟨(t.apply (p.x, p.y)).1, (t.apply (p.x, p.y)).2⟩⟩

/-! ## Scan lines -/

/-- The parameters of a fill that the raster reads. -/
structure PaintParams (K : Type) where
  /-- The diameter of the tool. -/
  toolDiameter : K
  /-- The share of a pass that overlaps the one before. -/
  overlap : K
  /-- How corners of the inset are joined. -/
  join : JoinType
  /-- The limit of a mitre. -/
  miterLimit : K

/-- The radius of the tool. -/
def PaintParams.radius (params : PaintParams K) : K := params.toolDiameter / 2

/-- The distance from one pass to the next. -/
def PaintParams.step (params : PaintParams K) : K := params.toolDiameter * (1 - params.overlap)

/-- The rows from one height to another, a step apart, with one at the top. -/
def scanRows [FloorSemiring K] (y0 y1 step : K) : List K :=
  if step ≤ 0 then [(y0 + y1) * (1 / 2)]
  else
    -- the heights that the loop visits before it passes the top
    let visited := (List.range (⌊(y1 + 1 / 10 ^ 9 - y0) / step⌋₊ + 1)).map
      fun k : ℕ => y0 + k * step
    let ys := (visited.takeWhile fun y => y ≤ y1 + 1 / 10 ^ 9).map fun y => min y y1
    match ys.getLast? with
    | some last => if 1 / 10 ^ 9 < y1 - last then ys ++ [y1] else ys
    | none => ys ++ [(y0 + y1) * (1 / 2)]

/-- **The rows cover the height of a region and do not leave it.** No height is further from a row
than half a step, or than the tolerance of the loop. -/
theorem scanRows_cover [FloorSemiring K] [IsStrictOrderedRing K] {y0 y1 step : K} (h : y0 ≤ y1)
    (hstep : 0 < step) :
    (∀ row ∈ scanRows y0 y1 step, y0 ≤ row ∧ row ≤ y1) ∧
      ∀ y, y0 ≤ y → y ≤ y1 →
        ∃ row ∈ scanRows y0 y1 step, |y - row| ≤ max (step / 2) (1 / 10 ^ 9) := by
  have htol : (0 : K) < 1 / 10 ^ 9 := by positivity
  set m := ⌊(y1 + 1 / 10 ^ 9 - y0) / step⌋₊ with hm
  set row : ℕ → K := fun k => min (y0 + k * step) y1 with hrow
  -- the loop visits no height above the top
  have hkeep : ((List.range (m + 1)).map fun k : ℕ => y0 + k * step).takeWhile
      (fun y => y ≤ y1 + 1 / 10 ^ 9) = (List.range (m + 1)).map fun k : ℕ => y0 + k * step := by
    refine List.takeWhile_eq_self_iff.2 fun x hx => decide_eq_true ?_
    obtain ⟨k, hk, rfl⟩ := List.mem_map.1 hx
    have hle := (Nat.le_floor_iff (div_nonneg (by linarith) hstep.le)).1
      (Nat.lt_succ_iff.1 (List.mem_range.1 hk))
    rw [le_div_iff₀ hstep] at hle
    linarith
  have hrows : scanRows y0 y1 step = (List.range (m + 1)).map row
      ++ if 1 / 10 ^ 9 < y1 - row m then [y1] else [] := by
    unfold scanRows
    rw [if_neg (not_le.2 hstep)]
    simp only [← hm, hkeep, List.map_map, List.getLast?_map, List.getLast?_range, Nat.succ_ne_zero,
      if_false, Option.map_some, Nat.add_sub_cancel]
    show (if 1 / 10 ^ 9 < y1 - row m then (List.range (m + 1)).map row ++ [y1]
      else (List.range (m + 1)).map row) = _
    split
    · rfl
    · exact (List.append_nil _).symm
  have hmem {k : ℕ} (hk : k ≤ m) : row k ∈ scanRows y0 y1 step := by
    rw [hrows]
    exact List.mem_append_left _ (List.mem_map_of_mem (List.mem_range.2 (Nat.lt_succ_of_le hk)))
  constructor
  · intro y hy
    rw [hrows] at hy
    rcases List.mem_append.1 hy with hy | hy
    · obtain ⟨k, -, rfl⟩ := List.mem_map.1 hy
      have hk : 0 ≤ (k : K) * step := mul_nonneg (Nat.cast_nonneg k) hstep.le
      exact ⟨le_min (le_add_of_nonneg_right hk) h, min_le_right _ _⟩
    · split at hy
      · rw [List.mem_singleton.1 hy]
        exact ⟨h, le_rfl⟩
      · exact absurd hy List.not_mem_nil
  · intro y hy0 hy1
    -- the last row that is not above the height
    set n := ⌊(y - y0) / step⌋₊ with hn
    have hbelow : n * step ≤ y - y0 :=
      (le_div_iff₀ hstep).1 (Nat.floor_le (div_nonneg (sub_nonneg.2 hy0) hstep.le))
    have habove : y - y0 < (n + 1) * step := (div_lt_iff₀ hstep).1 (Nat.lt_floor_add_one _)
    have hnm : n ≤ m := Nat.floor_le_floor (div_le_div_of_nonneg_right (by linarith) hstep.le)
    have hrown : row n = y0 + n * step := min_eq_left (by linarith)
    have hnear {a b : K} (ha : a ∈ scanRows y0 y1 step) (hb : b ∈ scanRows y0 y1 step)
        (hay : a ≤ y) (hyb : y ≤ b) (hab : b - a ≤ step) :
        ∃ row ∈ scanRows y0 y1 step, |y - row| ≤ max (step / 2) (1 / 10 ^ 9) := by
      rcases le_total (y - a) (step / 2) with hle | hle
      · exact ⟨a, ha, le_max_of_le_left (by rwa [abs_of_nonneg (by linarith)])⟩
      · exact ⟨b, hb, le_max_of_le_left (by rw [abs_of_nonpos (by linarith)]; linarith)⟩
    rcases hnm.lt_or_eq with hlt | heq
    · refine hnear (hmem hnm) (hmem hlt) (by linarith) (le_min ?_ hy1) ?_
      · push_cast
        linarith
      · have hnext : row (n + 1) ≤ y0 + (n + 1 : ℕ) * step := min_le_left _ _
        push_cast at hnext
        linarith
    · by_cases htop : 1 / 10 ^ 9 < y1 - row m
      · have hy1mem : y1 ∈ scanRows y0 y1 step := by
          rw [hrows, if_pos htop]
          exact List.mem_append_right _ (List.mem_singleton_self y1)
        have hlast : y1 + 1 / 10 ^ 9 - y0 < (m + 1) * step :=
          (div_lt_iff₀ hstep).1 (Nat.lt_floor_add_one _)
        refine hnear (hmem hnm) hy1mem (by linarith) hy1 ?_
        rw [hrown, heq]
        linarith
      · refine ⟨row n, hmem hnm, le_max_of_le_right ?_⟩
        rw [← heq] at htop
        rw [abs_of_nonneg (by linarith)]
        linarith

/-- Rows three apart, from zero to ten. -/
theorem scanRows_cover_ten :
    ∃ row ∈ scanRows (0 : ℚ) 10 3, |(5 : ℚ) - row| ≤ max (3 / 2) (1 / 10 ^ 9) :=
  (scanRows_cover (by decide) (by decide)).2 5 (by decide) (by decide)

/-- A level stretch to fill. -/
structure Span (K : Type) where
  /-- Its height. -/
  y : K
  /-- Its left end. -/
  lo : K
  /-- Its right end. -/
  hi : K
  deriving DecidableEq

/-- The span of a clipped scan line, unless it is too short. -/
def collectSpan : List (K × K) → Option (Span K)
  | [] => none
  | first :: rest =>
    let lo := (rest.map Prod.fst).foldl min first.1
    let hi := (rest.map Prod.fst).foldl max first.1
    if hi - lo ≤ 1 / 10 ^ 9 then none else some ⟨first.2, lo, hi⟩

/-- The spans of clipped scan lines. -/
def collectSpans (clipped : List (List (K × K))) : List (Span K) := clipped.filterMap collectSpan

/-- The order of spans: upwards, and to the right. -/
def spanLe (a b : Span K) : Bool := a.y < b.y || a.y = b.y && a.lo ≤ b.lo

/-- A span added to the last row, if it is as high. -/
def addSpan (rows : List (List (Span K))) (span : Span K) : List (List (Span K)) :=
  match rows.getLast? with
  | some (head :: row) =>
    if |head.y - span.y| ≤ 1 / 10 ^ 6 then rows.dropLast ++ [head :: row ++ [span]]
    else rows ++ [[span]]
  | _ => rows ++ [[span]]

/-- Spans by rows. -/
def groupRows (spans : List (Span K)) : List (List (Span K)) :=
  (spans.mergeSort spanLe).foldl addSpan []

/-! ## The sweep -/

/-- A span with the direction it is swept in. -/
structure Pass (K : Type) where
  /-- The span. -/
  span : Span K
  /-- From the left end to the right end. -/
  leftToRight : Bool
  deriving DecidableEq

namespace Pass

/-- Where a pass begins. -/
def entry (p : Pass K) : Point K :=
  if p.leftToRight then ⟨p.span.lo, p.span.y⟩ else ⟨p.span.hi, p.span.y⟩

/-- Where a pass ends. -/
def exit (p : Pass K) : Point K :=
  if p.leftToRight then ⟨p.span.hi, p.span.y⟩ else ⟨p.span.lo, p.span.y⟩

/-- The points of a path through passes. -/
def points (passes : List (Pass K)) : List (Point K) := passes.flatMap fun p => [p.entry, p.exit]

end Pass

/-- The passes of rows: even rows from the left, odd ones from the right. -/
def passes (rows : List (List (Span K))) : List (Pass K) :=
  rows.zipIdx.flatMap fun (row, ri) =>
    (if ri % 2 = 0 then row else row.reverse).map fun span => ⟨span, ri % 2 = 0⟩

/-- Whether the link from one point to another stays inside. -/
def linkInside (contains : MultiPolygon K → K × K → Bool) (region : MultiPolygon K)
    (a b : Point K) : Bool := segmentWithin contains region (a.x, a.y) (b.x, b.y)

/-- A pass appended to the path at hand, or to a new one: the paths so far and that path. -/
def sweep (link : Point K → Point K → Bool) (s : List (RingPath K) × List (Point K))
    (p : Pass K) : List (RingPath K) × List (Point K) :=
  match s.2.getLast? with
  | none => (s.1, s.2 ++ [p.entry, p.exit])
  | some last =>
    if link last p.entry then (s.1, s.2 ++ [p.entry, p.exit])
    else (s.1 ++ [⟨s.2⟩], [p.entry, p.exit])

/-- The spans of rows connected to as few paths as links allow. -/
def boustrophedon (contains : MultiPolygon K → K × K → Bool) (rows : List (List (Span K)))
    (inset : MultiPolygon K) : List (RingPath K) :=
  let s := (passes rows).foldl (sweep (linkInside contains inset)) ([], [])
  if s.2.isEmpty then s.1 else s.1 ++ [⟨s.2⟩]

/-- The geometry that a fill calls. -/
structure Backend (K : Type) where
  /-- A polygon offset by a distance, with a join and a mitre limit. -/
  offset : Polygon (List (K × K)) → K → JoinType → K → Except Geo.Error (MultiPolygon K)
  /-- The box around a region, if it is not empty. -/
  bounds : MultiPolygon K → Option (K × K × K × K)
  /-- The parts of lines inside a region. -/
  clipLines : MultiPolygon K → List (List (K × K)) → List (List (K × K))
  /-- Whether a region contains a point, its boundary not counted. -/
  contains : MultiPolygon K → K × K → Bool

/-- The spans of a region that are filled. -/
def scanSpans [FloorSemiring K] (B : Backend K) (params : PaintParams K)
    (inset : MultiPolygon K) : List (Span K) :=
  match B.bounds inset with
  | none => []
  | some (x0, y0, x1, y1) =>
    collectSpans (B.clipLines inset
      ((scanRows y0 y1 params.step).map fun y => [(x0 - 1, y), (x1 + 1, y)]))

/-- A region filled along scan lines at an angle. -/
def fill [FloorSemiring K] (B : Backend K) (theta : Rotation K)
    (region : Polygon (List (K × K))) (params : PaintParams K) :
    Except Geo.Error (List (RingPath K)) := do
  let inset ← B.offset (rotatePolygon theta.neg region) (-params.radius) params.join
    params.miterLimit
  let paths := boustrophedon B.contains (groupRows (scanSpans B params inset)) inset
  return paths.map fun p => transformRing p theta

/-! ## What the paths are -/

theorem flatten_addSpan (rows : List (List (Span K))) (span : Span K) :
    (addSpan rows span).flatten = rows.flatten ++ [span] := by
  unfold addSpan
  split
  next head row hlast =>
    split
    · have hrows := List.dropLast_append_getLast? _ hlast
      rw [← hrows]
      simp
    · simp
  next => simp

/-- The rows hold the spans, in order. -/
theorem perm_flatten_groupRows (spans : List (Span K)) : (groupRows spans).flatten.Perm spans := by
  have hfold : ∀ (l : List (Span K)) rows, (l.foldl addSpan rows).flatten = rows.flatten ++ l := by
    intro l
    induction l with
    | nil => simp
    | cons span l ih =>
      intro rows
      rw [List.foldl_cons, ih, flatten_addSpan, List.append_assoc, List.singleton_append]
  unfold groupRows
  rw [hfold]
  exact List.mergeSort_perm spans spanLe

omit [Field K] [LinearOrder K] in
/-- The passes hold the spans of the rows. -/
theorem perm_map_span_passes (rows : List (List (Span K))) :
    ((passes rows).map Pass.span).Perm rows.flatten := by
  have hzip : ∀ (rows : List (List (Span K))) (n : ℕ),
      (((rows.zipIdx n).flatMap fun (row, ri) =>
        (if ri % 2 = 0 then row else row.reverse).map fun span =>
          (⟨span, ri % 2 = 0⟩ : Pass K)).map Pass.span).Perm rows.flatten := by
    intro rows
    induction rows with
    | nil => exact fun n => .refl _
    | cons row rows ih =>
      intro n
      rw [List.zipIdx_cons, List.flatMap_cons, List.map_append, List.flatten_cons]
      refine List.Perm.append ?_ (ih (n + 1))
      rw [List.map_map]
      show ((if n % 2 = 0 then row else row.reverse).map id).Perm row
      rw [List.map_id]
      split
      · exact .refl _
      · exact List.reverse_perm row
  exact hzip rows 0

/-- Along a chain of a relation, relations that agree where it holds have the same chains. -/
theorem isChain_congr {A : Type*} {R S T : A → A → Prop} {l : List A} (h : l.IsChain R)
    (hiff : ∀ {a b}, R a b → (S a b ↔ T a b)) : l.IsChain S ↔ l.IsChain T := by
  induction l with
  | nil => simp
  | cons a l ih =>
    cases l with
    | nil => simp
    | cons b l =>
      rw [List.isChain_cons_cons] at h
      rw [List.isChain_cons_cons, List.isChain_cons_cons, hiff h.1, ih h.2]

section Sweep

variable (link : Point K → Point K → Bool)

omit [Field K] [LinearOrder K] in
theorem getLast?_points (g : List (Pass K)) (q : Pass K) :
    (Pass.points (g ++ [q])).getLast? = some q.exit := by
  unfold Pass.points
  rw [List.flatMap_append, List.flatMap_singleton, List.getLast?_append]
  rfl

omit [Field K] [LinearOrder K] in
theorem sweep_points (paths : List (RingPath K)) (g : List (Pass K)) (q p : Pass K) :
    sweep link (paths, Pass.points (g ++ [q])) p
      = if link q.exit p.entry then (paths, Pass.points (g ++ [q] ++ [p]))
        else (paths ++ [⟨Pass.points (g ++ [q])⟩], Pass.points [p]) := by
  have happend : Pass.points (g ++ [q] ++ [p])
      = Pass.points (g ++ [q]) ++ [p.entry, p.exit] := by
    unfold Pass.points
    rw [List.flatMap_append, List.flatMap_singleton]
  rw [happend]
  simp only [sweep, getLast?_points]
  rfl

omit [Field K] [LinearOrder K] in
/-- The sweep, from a path at hand: it is carried on, and split where a link is not allowed. -/
theorem foldl_sweep (l : List (Pass K)) (g : List (Pass K)) (q : Pass K)
    (hchain : (g ++ [q]).IsChain fun p q => link p.exit q.entry = true)
    (paths : List (RingPath K)) :
    (l.foldl (sweep link) (paths, Pass.points (g ++ [q]))).2 ≠ []
      ∧ (l.foldl (sweep link) (paths, Pass.points (g ++ [q]))).1
          ++ [⟨(l.foldl (sweep link) (paths, Pass.points (g ++ [q]))).2⟩]
        = paths ++ ((g ++ q :: l).splitBy fun p q => link p.exit q.entry).map
            fun h => ⟨Pass.points h⟩ := by
  induction l generalizing g q paths with
  | nil =>
    constructor
    · intro h
      have hlast := getLast?_points g q
      rw [show Pass.points (g ++ [q]) = [] from h] at hlast
      exact absurd hlast (by simp)
    · rw [List.splitBy_of_isChain (by simp) hchain]
      rfl
  | cons p l ih =>
    rw [List.foldl_cons, sweep_points]
    split
    next hlink =>
      have hchain' : (g ++ [q] ++ [p]).IsChain fun p q => link p.exit q.entry = true :=
        List.isChain_append.2 ⟨hchain, List.isChain_singleton p, by simpa using hlink⟩
      have hsplit : g ++ q :: p :: l = g ++ [q] ++ p :: l := by simp
      rw [hsplit]
      exact ih (g ++ [q]) p hchain' paths
    next hlink =>
      have hsplit : g ++ q :: p :: l = g ++ [q] ++ p :: l := by simp
      rw [hsplit, List.splitBy_append_cons l (by simpa using hlink),
        List.splitBy_of_isChain (by simp) hchain, List.map_append, ← List.append_assoc]
      exact ih [] p (List.isChain_singleton p) (paths ++ [⟨Pass.points (g ++ [q])⟩])

end Sweep

variable {contains : MultiPolygon K → K × K → Bool}

/-- **The paths are the sweep**, split where a link does not stay inside. -/
theorem boustrophedon_eq (rows : List (List (Span K))) (inset : MultiPolygon K) :
    boustrophedon contains rows inset
      = ((passes rows).splitBy fun p q => linkInside contains inset p.exit q.entry).map
          fun g => ⟨Pass.points g⟩ := by
  unfold boustrophedon
  rcases passes rows with _ | ⟨p, l⟩
  · rfl
  · obtain ⟨hne, heq⟩ := foldl_sweep (linkInside contains inset) l [] p
      (List.isChain_singleton p) []
    rw [List.foldl_cons]
    show (if (l.foldl (sweep (linkInside contains inset)) ([], Pass.points ([] ++ [p]))).2.isEmpty
      then _ else _) = _
    rw [if_neg (by simpa using hne)]
    exact heq

/-- **Links of a raster fill.** A tested link stays in the closed region exactly if it is clear. The
paths of a fill are groups of passes that hold every span once; between two passes of a group is a
link that passed the test, and all the links stay in the inset region, turned back, exactly if all
of them are clear. -/
theorem raster_links_spec (G : Containment) (region : MultiPolygon ℝ) (a b : ℝ × ℝ)
    (B : Backend ℝ) (theta : Rotation ℝ) (poly : Polygon (List (ℝ × ℝ))) (params : PaintParams ℝ) :
    ((segmentWithin G.contains region a b = true → segment ℝ a b ⊆ G.solid region)
        ↔ G.Clear region a b)
      ∧ ∀ paths, fill { B with contains := G.contains } theta poly params = .ok paths →
        ∃ inset, B.offset (rotatePolygon theta.neg poly) (-params.radius) params.join
            params.miterLimit = .ok inset
          ∧ ∃ groups : List (List (Pass ℝ)),
            paths = groups.map (fun g => transformRing ⟨Pass.points g⟩ theta)
            ∧ [] ∉ groups
            ∧ (groups.flatten.map Pass.span).Perm (scanSpans B params inset)
            ∧ (∀ g ∈ groups, g.IsChain fun p q =>
                linkInside G.contains inset p.exit q.entry = true)
            ∧ ((∀ g ∈ groups, g.IsChain fun p q =>
                segment ℝ (theta.apply (p.exit.x, p.exit.y)) (theta.apply (q.entry.x, q.entry.y))
                  ⊆ theta.apply '' G.solid inset)
              ↔ ∀ g ∈ groups, g.IsChain fun p q =>
                G.Clear inset (p.exit.x, p.exit.y) (q.entry.x, q.entry.y)) := by
  refine ⟨Containment.within_imp_subset_iff, fun paths hfill => ?_⟩
  unfold fill at hfill
  rcases hinset : B.offset (rotatePolygon theta.neg poly) (-params.radius) params.join
    params.miterLimit with e | inset
  · rw [hinset] at hfill
    cases hfill
  · rw [hinset] at hfill
    obtain rfl := Except.ok.inj hfill
    refine ⟨inset, rfl, (passes (groupRows (scanSpans B params inset))).splitBy
      fun p q => linkInside G.contains inset p.exit q.entry, ?_, List.nil_notMem_splitBy _ _, ?_,
      fun g hg => List.isChain_of_mem_splitBy hg, ?_⟩
    · rw [boustrophedon_eq, List.map_map]
      rfl
    · rw [List.flatten_splitBy]
      exact (perm_map_span_passes _).trans (perm_flatten_groupRows _)
    · -- every link of a group has passed the test
      have htested {p q : Pass ℝ} (h : linkInside G.contains inset p.exit q.entry = true) :
          segment ℝ (theta.apply (p.exit.x, p.exit.y)) (theta.apply (q.entry.x, q.entry.y))
              ⊆ theta.apply '' G.solid inset
            ↔ G.Clear inset (p.exit.x, p.exit.y) (q.entry.x, q.entry.y) := by
        rw [theta.segment_subset_image_iff, ← Containment.within_imp_subset_iff]
        exact (imp_iff_right h).symm
      exact forall₂_congr fun g hg => isChain_congr (List.isChain_of_mem_splitBy hg) htested

end Galdr.Paint
