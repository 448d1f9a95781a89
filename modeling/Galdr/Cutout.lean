import Galdr.CircularCuts
import Galdr.DrillPlan
import Galdr.Isolation

/-!
# Cutting out a board

A cutout goes around a board at the radius of the tool and leaves tabs uncut. Each ring of the
outline, offset, is cut at its tabs: the vertices of the ring and the ends of the tabs are marks,
keyed by how far along the ring they are, and a walk from mark to mark leaves out the edges whose
middle is in a tab.

The ring is read by how far along it a point is (`ringAt`), any number of turns. Between two
neighbouring marks it runs straight (`ringAt_between`).
-/

namespace Galdr.Eitri.Cutout

open Circular

/-! ## Parameters -/

/-- The outline to cut around. -/
inductive CutoutOutline (K : Type)
  /-- An axis-parallel rectangle. -/
  | rectangle (min max : Point K)
  /-- Polygons. -/
  | geometry (polygons : List (Geo.Polygon (List (Point K))))

/-- Where the tabs are. -/
inductive TabPlacement
  /-- A number of tabs, evenly spaced from the start of the ring. -/
  | count (n : ℕ)
  /-- Tabs at fractions of the perimeter. -/
  | atFractions (fractions : List ℚ)

/-- The parameters of a cutout, in millimetres. -/
structure CutoutParams where
  toolDiameter : ℚ
  tabWidth : ℚ
  tabs : TabPlacement
  margin : ℚ
  direction : Geo.MillingDirection
  join : Geo.JoinType
  miterLimit : ℚ

namespace CutoutParams

/-- The defaults. -/
def default : CutoutParams :=
  { toolDiameter := 1, tabWidth := 2, tabs := .count 4, margin := 0, direction := .conventional,
    join := .round, miterLimit := 2 }

/-- The radius of the tool. -/
def radius (params : CutoutParams) : ℚ := params.toolDiameter / 2

/-- The parameters are in their domain. -/
def validate (params : CutoutParams) : Except Geo.Error Unit :=
  if params.toolDiameter ≤ 0 then
    .error (.invalidGeometry "cutout tool diameter must be positive")
  else if params.tabWidth < 0 then
    .error (.invalidGeometry "cutout tab width must be non-negative")
  else if params.margin < 0 then
    .error (.invalidGeometry "cutout margin must be non-negative")
  else .ok ()

end CutoutParams

variable {K : Type} [Field K] [LinearOrder K]

/-- How far along a ring the tabs are centred. -/
def TabPlacement.centers (perimeter : K) : TabPlacement → Except Geo.Error (List K)
  | count n => .ok ((List.range n).map fun k => (k : K) * perimeter / (n : K))
  | atFractions fractions =>
    if fractions.any fun f => !(decide (0 ≤ f) && decide (f < 1)) then
      .error (.invalidGeometry "cutout tab fractions must lie in [0, 1)")
    else .ok (fractions.map fun f => (f : K) * perimeter)

/-! ## Along a ring -/

section Along

variable (hypot : K → K → K)

/-- The lengths of the edges of a ring. -/
def edgeLengths (points : List (Point K)) : List K :=
  (pairs points).map fun e => Travel.distanceTo hypot e.1 e.2

/-- The length of a ring. -/
def ringPerimeter (points : List (Point K)) : K := (edgeLengths hypot points).sum

/-- How far along the vertices are, from the first. -/
def cumulativeFrom (acc : K) : List (Point K) → List K
  | p :: q :: rest => acc :: cumulativeFrom (acc + Travel.distanceTo hypot p q) (q :: rest)
  | _ => [acc]

/-- How far along a ring its vertices are. -/
def cumulativeArclengths (points : List (Point K)) : List K := cumulativeFrom hypot 0 points

/-- A share of the way from a point to another. -/
def towards (p q : Point K) (f : K) : Point K := ⟨p.x + (q.x - p.x) * f, p.y + (q.y - p.y) * f⟩

/-- The point of the first edge that reaches a length. -/
def pointFrom : List (Point K) → List K → K → Point K
  | p :: q :: points, a :: b :: cum, t =>
    if b < t then pointFrom (q :: points) (b :: cum) t
    else if b - a ≤ 0 then p
    else towards p q ((t - a) / (b - a))
  | points, _, _ => points.getLast?.getD ⟨0, 0⟩

/-- The point so far along a ring, which is clamped to it. -/
def pointAtArclength (points : List (Point K)) (cum : List K) (target : K) : Point K :=
  pointFrom points cum (max 0 (min target (cum.getLast?.getD 0)))

/-! ## The split -/

/-- How near marks are taken for one. -/
def markEpsilon : K := 1 / 10 ^ 9

/-- Marks less those that are near to the one kept before them. -/
def dedupAfter (last : K × Point K) : List (K × Point K) → List (K × Point K)
  | [] => [last]
  | mark :: rest =>
    if |mark.1 - last.1| ≤ markEpsilon then dedupAfter last rest
    else last :: dedupAfter mark rest

/-- `dedup_by`. -/
def dedupNear : List (K × Point K) → List (K × Point K)
  | [] => []
  | mark :: rest => dedupAfter mark rest

variable [FloorRing K] (points : List (Point K)) (centers : List K) (tabWidth : K)

/-- The vertices of a ring, less the closing one, and the ends of its tabs. -/
def breaks : List (K × Point K) :=
  let cum := cumulativeArclengths hypot points
  let perimeter := ringPerimeter hypot points
  cum.dropLast.zip points
    ++ centers.flatMap fun c =>
      [wrap (c - tabWidth / 2) perimeter, wrap (c + tabWidth / 2) perimeter].map fun edge =>
        (edge, pointAtArclength points cum edge)

/-- The marks around a ring, in order. -/
def augmented : List (K × Point K) :=
  dedupNear ((breaks hypot points centers tabWidth).insertionSort fun a b => a.1 ≤ b.1)

/-- A place is in a tab. -/
def inTab (perimeter s : K) : Bool :=
  centers.any fun c => decide (circularDistance s c perimeter < tabWidth / 2 - markEpsilon)

/-- The middle of an edge between marks is in a tab. -/
def edgeIsGap (perimeter : K) (a b : K × Point K) : Bool :=
  inTab centers tabWidth perimeter
    (wrap (a.1 + wrap (b.1 - a.1) perimeter / 2) perimeter)

/-- `split_ring_at_tabs`: the walk starts at a gap, so that no run goes on past its end. -/
def splitRingAtTabs : List (RingPath K) :=
  let perimeter := ringPerimeter hypot points
  if points.length < 4 ∨ perimeter ≤ 0 then []
  else if centers.isEmpty ∨ tabWidth / 2 ≤ 0 then [⟨points⟩]
  else if perimeter ≤ tabWidth * centers.length then []
  else
    let aug := augmented hypot points centers tabWidth
    let edges := aug.zip (aug.rotate 1)
    let gap := edgeIsGap centers tabWidth perimeter
    match edges.findIdx? fun e => gap e.1 e.2 with
    | none => [⟨points⟩]
    | some start => (walk gap (edges.rotate start) []).map fun run => ⟨run.map Prod.snd⟩

end Along

/-! ## The operation -/

section Operation

variable [FloorRing K] (hypot : K → K → K) (B : Geo.GeoBackend (List (Point K)))
  (params : CutoutParams) (cancelled : ℕ → Bool)

/-- What a cutout gives: the cuts, and how many tabs were placed. -/
structure CutoutResult (K : Type) where
  paths : List (RingPath K)
  tabCount : ℕ
  direction : Geo.MillingDirection

/-- A rectangle, counter-clockwise. -/
def rectangle (x₀ y₀ x₁ y₁ : K) : Geo.Polygon (List (Point K)) :=
  ⟨[⟨x₀, y₀⟩, ⟨x₁, y₀⟩, ⟨x₁, y₁⟩, ⟨x₀, y₁⟩, ⟨x₀, y₀⟩], []⟩

/-- The polygons to cut around. -/
def CutoutOutline.sources : CutoutOutline K → Except Geo.Error (List (Geo.Polygon (List (Point K))))
  | rectangle min max => .ok [Cutout.rectangle min.x min.y max.x max.y]
  | geometry polygons => B.unionAll polygons

/-- The cuts of one ring, and its tabs. -/
def cutRing (poly : Geo.Polygon (List (Point K))) : Except Geo.Error (List (RingPath K) × ℕ) := do
  let ring := (B.normalizeWinding poly params.direction.winding).exterior
  let centers ← params.tabs.centers (ringPerimeter hypot ring)
  .ok (splitRingAtTabs hypot ring centers params.tabWidth, centers.length)

/-- The cuts around the outer ring of a polygon, and their tabs. -/
def cutSource (src : Geo.Polygon (List (Point K))) (look : ℕ) :
    Except Geo.Error (List (List (RingPath K) × ℕ)) := do
  Travel.checkCancel (cancelled look)
  let offset ← B.offset ⟨src.exterior, []⟩ (params.radius + params.margin) params.join
    params.miterLimit
  offset.mapM (cutRing hypot B params)

/-- `cutout`. -/
def cutout (outline : CutoutOutline K) : Except Geo.Error (CutoutResult K) := do
  params.validate
  Travel.checkCancel (cancelled 0)
  let sources ← outline.sources B
  let cuts ← sources.zipIdx.mapM fun e => cutSource hypot B params cancelled e.1 (e.2 + 1)
  .ok ⟨cuts.flatten.flatMap Prod.fst, (cuts.flatten.map Prod.snd).sum, params.direction⟩

end Operation

/-! ## The ring as a line -/

section Line

variable {hypot : K → K → K} {points rest : List (Point K)} {p q : Point K} {acc a b t : K}

omit [LinearOrder K] in
theorem exists_cumulativeFrom (hypot : K → K → K) (acc : K) (l : List (Point K)) :
    ∃ cum, cumulativeFrom hypot acc l = acc :: cum := by
  cases l with
  | nil => exact ⟨_, rfl⟩
  | cons p l =>
    cases l with
    | nil => exact ⟨_, rfl⟩
    | cons q l => exact ⟨_, rfl⟩

omit [LinearOrder K] in
theorem length_cumulativeFrom (acc : K) (p : Point K) (l : List (Point K)) :
    (cumulativeFrom hypot acc (p :: l)).length = l.length + 1 := by
  induction l generalizing acc p with
  | nil => rfl
  | cons q l ih => exact congrArg (· + 1) (ih _ q)

omit [LinearOrder K] in
theorem getLast?_cumulativeFrom (hypot : K → K → K) (acc : K) (l : List (Point K)) :
    (cumulativeFrom hypot acc l).getLast? = some (acc + ringPerimeter hypot l) := by
  induction l generalizing acc with
  | nil => exact congrArg some (add_zero acc).symm
  | cons p l ih =>
    cases l with
    | nil => exact congrArg some (add_zero acc).symm
    | cons q l =>
      obtain ⟨cum, hcum⟩ := exists_cumulativeFrom hypot
        (acc + Travel.distanceTo hypot p q) (q :: l)
      have htail := ih (acc + Travel.distanceTo hypot p q)
      show (acc :: cumulativeFrom hypot (acc + Travel.distanceTo hypot p q) (q :: l)).getLast? = _
      rw [hcum, List.getLast?_cons_cons, ← hcum, htail, add_assoc]
      rfl

/-- What a hypotenuse keeps to. -/
structure LawfulHypot (hypot : K → K → K) : Prop where
  /-- It is not negative. -/
  nonneg : ∀ x y, 0 ≤ hypot x y
  /-- It is nothing of nothing only. -/
  eq_zero : ∀ x y, hypot x y = 0 → x = 0 ∧ y = 0
  /-- Of nothing it is nothing. -/
  zero : hypot 0 0 = 0

theorem LawfulHypot.distanceTo_nonneg (h : LawfulHypot hypot) (p q : Point K) :
    0 ≤ Travel.distanceTo hypot p q := h.nonneg _ _

theorem LawfulHypot.eq_of_distanceTo (h : LawfulHypot hypot)
    (hd : Travel.distanceTo hypot p q = 0) : p = q := by
  obtain ⟨hx, hy⟩ := h.eq_zero _ _ hd
  cases p
  cases q
  simp only [Point.mk.injEq]
  exact ⟨sub_eq_zero.mp hx, sub_eq_zero.mp hy⟩

variable [IsStrictOrderedRing K]

theorem LawfulHypot.ringPerimeter_nonneg (h : LawfulHypot hypot) (l : List (Point K)) :
    0 ≤ ringPerimeter hypot l := by
  refine List.sum_nonneg ?_
  simp only [edgeLengths, List.mem_map, forall_exists_index, and_imp]
  rintro _ e _ rfl
  exact h.distanceTo_nonneg _ _

omit [IsStrictOrderedRing K] [LinearOrder K] in
theorem ringPerimeter_cons (p q : Point K) (l : List (Point K)) :
    ringPerimeter hypot (p :: q :: l)
      = Travel.distanceTo hypot p q + ringPerimeter hypot (q :: l) := rfl

/-- No vertex is before the first, and none is after the last. -/
theorem LawfulHypot.mem_cumulativeFrom (h : LawfulHypot hypot) {l : List (Point K)} {k : K}
    (hk : k ∈ cumulativeFrom hypot acc l) : acc ≤ k ∧ k ≤ acc + ringPerimeter hypot l := by
  induction l generalizing acc with
  | nil =>
    obtain rfl := List.mem_singleton.mp hk
    exact ⟨le_rfl, le_add_of_nonneg_right (h.ringPerimeter_nonneg _)⟩
  | cons p l ih =>
    cases l with
    | nil =>
      obtain rfl := List.mem_singleton.mp hk
      exact ⟨le_rfl, le_add_of_nonneg_right (h.ringPerimeter_nonneg _)⟩
    | cons q l =>
      have hd := h.distanceTo_nonneg p q
      rcases List.mem_cons.mp hk with rfl | hk
      · exact ⟨le_rfl, le_add_of_nonneg_right (h.ringPerimeter_nonneg _)⟩
      · obtain ⟨hlow, hhigh⟩ := ih hk
        rw [ringPerimeter_cons]
        constructor <;> linarith

/-- Vertices that are not the same as the one before are in order. -/
theorem LawfulHypot.pairwise_lt_cumulativeFrom (h : LawfulHypot hypot) (acc : K)
    {l : List (Point K)} (hne : l.IsChain (· ≠ ·)) :
    (cumulativeFrom hypot acc l).Pairwise (· < ·) := by
  induction l generalizing acc with
  | nil => exact List.pairwise_singleton _ _
  | cons p l ih =>
    cases l with
    | nil => exact List.pairwise_singleton _ _
    | cons q l =>
      obtain ⟨hpq, hrest⟩ := List.isChain_cons_cons.mp hne
      have hd : 0 < Travel.distanceTo hypot p q :=
        (h.distanceTo_nonneg p q).lt_of_ne fun hzero => hpq (h.eq_of_distanceTo hzero.symm)
      refine List.pairwise_cons.mpr ⟨fun k hk => ?_, ih _ hrest⟩
      exact (lt_add_of_pos_right _ hd).trans_le (h.mem_cumulativeFrom hk).1

/-- The point so far along some points, of which the first is so far along already. -/
def along (hypot : K → K → K) (acc : K) (l : List (Point K)) (t : K) : Point K :=
  pointFrom l (cumulativeFrom hypot acc l) t

omit [IsStrictOrderedRing K] in
theorem along_cons (p q : Point K) (l : List (Point K)) :
    along hypot acc (p :: q :: l) t =
      if acc + Travel.distanceTo hypot p q < t then
        along hypot (acc + Travel.distanceTo hypot p q) (q :: l) t
      else if Travel.distanceTo hypot p q ≤ 0 then p
      else towards p q ((t - acc) / Travel.distanceTo hypot p q) := by
  obtain ⟨cum, hcum⟩ := exists_cumulativeFrom hypot
    (acc + Travel.distanceTo hypot p q) (q :: l)
  unfold along
  show pointFrom (p :: q :: l) (acc :: cumulativeFrom hypot _ (q :: l)) t = _
  rw [hcum]
  show (if acc + Travel.distanceTo hypot p q < t then _
    else if acc + Travel.distanceTo hypot p q - acc ≤ 0 then p
    else towards p q ((t - acc) / (acc + Travel.distanceTo hypot p q - acc))) = _
  rw [add_sub_cancel_left]

omit [LinearOrder K] [IsStrictOrderedRing K] in
@[simp]
theorem towards_zero (p q : Point K) : towards p q 0 = p := by
  simp [towards]

omit [LinearOrder K] [IsStrictOrderedRing K] in
@[simp]
theorem towards_one (p q : Point K) : towards p q 1 = q := by
  simp [towards]

theorem LawfulHypot.along_start (h : LawfulHypot hypot) (p : Point K) (l : List (Point K)) :
    along hypot acc (p :: l) acc = p := by
  cases l with
  | nil => rfl
  | cons q l =>
    have hd := h.distanceTo_nonneg p q
    rw [along_cons, if_neg (by linarith), sub_self, zero_div, towards_zero, ite_self]

/-- Past the first edge, the rest of the points decide. -/
theorem LawfulHypot.along_skip (h : LawfulHypot hypot) {l : List (Point K)}
    (ht : acc + Travel.distanceTo hypot p q ≤ t) :
    along hypot acc (p :: q :: l) t
      = along hypot (acc + Travel.distanceTo hypot p q) (q :: l) t := by
  rw [along_cons]
  rcases ht.lt_or_eq with hlt | rfl
  · rw [if_pos hlt]
  · rw [if_neg (lt_irrefl _), h.along_start, add_sub_cancel_left]
    split
    · next hd => exact h.eq_of_distanceTo (le_antisymm hd (h.distanceTo_nonneg p q))
    · next hd => rw [div_self (fun hz => hd hz.le), towards_one]

/-- The length leads to the last point. -/
theorem LawfulHypot.along_finish (h : LawfulHypot hypot) (acc : K) (l : List (Point K)) :
    along hypot acc l (acc + ringPerimeter hypot l) = l.getLast?.getD ⟨0, 0⟩ := by
  induction l generalizing acc with
  | nil => rfl
  | cons p l ih =>
    cases l with
    | nil => rfl
    | cons q l =>
      have hrest := h.ringPerimeter_nonneg (q :: l)
      rw [ringPerimeter_cons, h.along_skip (by linarith), ← add_assoc, ih,
        List.getLast?_cons_cons]

/-- A vertex is where its length leads. -/
theorem LawfulHypot.along_vertex (h : LawfulHypot hypot) {l : List (Point K)} {e : K × Point K}
    (he : e ∈ (cumulativeFrom hypot acc l).zip l) : along hypot acc l e.1 = e.2 := by
  induction l generalizing acc with
  | nil => cases he
  | cons p l ih =>
    cases l with
    | nil =>
      obtain rfl := List.mem_singleton.mp he
      rfl
    | cons q l =>
      rcases List.mem_cons.mp he with rfl | he
      · exact h.along_start p _
      · have hmem := (h.mem_cumulativeFrom (List.of_mem_zip he).1).1
        rw [h.along_skip hmem]
        exact ih he

/-- A way runs straight from one place to another, and it gets somewhere. -/
def Straight (f : K → Point K) (a b : K) : Prop :=
  f a ≠ f b ∧ ∀ t, a ≤ t → t ≤ b → f t = towards (f a) (f b) ((t - a) / (b - a))

omit [LinearOrder K] [IsStrictOrderedRing K] in
theorem eq_of_towards_eq {f g : K} (hne : f ≠ g) (h : towards p q f = towards p q g) : p = q := by
  have hpx : p.x + (q.x - p.x) * f = p.x + (q.x - p.x) * g := congrArg Point.x h
  have hpy : p.y + (q.y - p.y) * f = p.y + (q.y - p.y) * g := congrArg Point.y h
  have hx : (q.x - p.x) * (f - g) = 0 := by linear_combination hpx
  have hy : (q.y - p.y) * (f - g) = 0 := by linear_combination hpy
  have hfg : f - g ≠ 0 := sub_ne_zero.mpr hne
  cases p
  cases q
  simp only [Point.mk.injEq]
  exact ⟨(sub_eq_zero.mp ((mul_eq_zero.mp hx).resolve_right hfg)).symm,
    (sub_eq_zero.mp ((mul_eq_zero.mp hy).resolve_right hfg)).symm⟩

omit [LinearOrder K] [IsStrictOrderedRing K] in
theorem towards_towards (p q : Point K) (f g s : K) :
    towards (towards p q f) (towards p q g) s = towards p q (f + (g - f) * s) := by
  simp only [towards, Point.mk.injEq]
  constructor <;> ring

/-- Between two places with no vertex between them a ring runs straight. -/
theorem LawfulHypot.along_between (h : LawfulHypot hypot) {l : List (Point K)} (ha : acc ≤ a)
    (hab : a < b) (hb : b ≤ acc + ringPerimeter hypot l)
    (hfree : ∀ k ∈ cumulativeFrom hypot acc l, ¬(a < k ∧ k < b)) :
    Straight (along hypot acc l) a b := by
  induction l generalizing acc with
  | nil => exact absurd (hab.trans_le hb) (by simpa [ringPerimeter, edgeLengths, pairs] using ha)
  | cons p l ih =>
    cases l with
    | nil => exact absurd (hab.trans_le hb) (by simpa [ringPerimeter, edgeLengths, pairs] using ha)
    | cons q l =>
      rcases le_or_gt b (acc + Travel.distanceTo hypot p q) with hle | hgt
      · -- both places are on the first edge
        have hd : 0 < Travel.distanceTo hypot p q := by linarith
        have hedge : ∀ t, t ≤ b → along hypot acc (p :: q :: l) t
            = towards p q ((t - acc) / Travel.distanceTo hypot p q) := by
          intro t ht
          rw [along_cons, if_neg (by linarith), if_neg hd.not_ge]
        have hne : p ≠ q := by
          rintro rfl
          have hzero : Travel.distanceTo hypot p p = 0 := by
            simp [Travel.distanceTo, h.zero]
          exact hd.ne' hzero
        refine ⟨?_, fun t hta htb => ?_⟩
        · rw [hedge a hab.le, hedge b le_rfl]
          refine fun heq => hne ?_
          exact eq_of_towards_eq (fun hs => hab.ne (by
            rw [div_left_inj' hd.ne'] at hs
            linarith)) heq
        · rw [hedge a hab.le, hedge b le_rfl, hedge t htb, towards_towards]
          congr 1
          have hba : b - a ≠ 0 := (sub_pos.mpr hab).ne'
          field_simp
          ring
      · -- the end of the first edge is not between them
        have hskip : acc + Travel.distanceTo hypot p q ≤ a := by
          by_contra hlt
          obtain ⟨cum, hcum⟩ := exists_cumulativeFrom hypot
            (acc + Travel.distanceTo hypot p q) (q :: l)
          refine hfree _ ?_ ⟨not_le.mp hlt, hgt⟩
          show _ ∈ acc :: cumulativeFrom hypot (acc + Travel.distanceTo hypot p q) (q :: l)
          rw [hcum]
          exact List.mem_cons_of_mem _ List.mem_cons_self
        have htail : ∀ t, a ≤ t → along hypot acc (p :: q :: l) t
            = along hypot (acc + Travel.distanceTo hypot p q) (q :: l) t :=
          fun t ht => h.along_skip (hskip.trans ht)
        obtain ⟨hne, hstraight⟩ := ih hskip (by rwa [add_assoc, ← ringPerimeter_cons])
          (fun k hk => hfree k (List.mem_cons_of_mem _ hk))
        refine ⟨?_, fun t hta htb => ?_⟩
        · rw [htail a le_rfl, htail b hab.le]
          exact hne
        · rw [htail a le_rfl, htail b hab.le, htail t hta]
          exact hstraight t hta htb

end Line

/-! ## The ring, any number of turns -/

section Turns

variable [FloorRing K] {hypot : K → K → K} {points : List (Point K)} {a b u : K}

/-- The point so far around a ring. -/
def ringAt (hypot : K → K → K) (points : List (Point K)) (u : K) : Point K :=
  pointAtArclength points (cumulativeArclengths hypot points)
    (wrap u (ringPerimeter hypot points))

/-- A ring that has a length, and ends where it starts. -/
structure IsRing (hypot : K → K → K) (points : List (Point K)) : Prop where
  /-- The hypotenuse is one. -/
  lawful : LawfulHypot hypot
  /-- The last point closes the ring. -/
  closed : points.head? = points.getLast?
  /-- The ring has a length. -/
  perimeter_pos : 0 < ringPerimeter hypot points

variable [IsStrictOrderedRing K]

omit [FloorRing K] [IsStrictOrderedRing K] in
theorem pointAtArclength_eq (h0 : 0 ≤ u) (hu : u ≤ ringPerimeter hypot points) :
    pointAtArclength points (cumulativeArclengths hypot points) u = along hypot 0 points u := by
  unfold pointAtArclength cumulativeArclengths
  rw [getLast?_cumulativeFrom, Option.getD_some, zero_add, min_eq_left hu, max_eq_right h0]
  rfl

/-- Within a turn, a ring is a line. -/
theorem IsRing.ringAt_eq (h : IsRing hypot points) {k : ℤ}
    (hlow : k * ringPerimeter hypot points ≤ u) (hhigh : u ≤ (k + 1) * ringPerimeter hypot points) :
    ringAt hypot points u = along hypot 0 points (u - k * ringPerimeter hypot points) := by
  have hP := h.perimeter_pos
  unfold ringAt
  rw [pointAtArclength_eq (wrap_nonneg hP) (wrap_lt hP).le]
  rcases hhigh.lt_or_eq with hlt | rfl
  · have hwrap := wrap_add_mul hP (u - k * ringPerimeter hypot points) k
    rw [sub_add_cancel] at hwrap
    rw [hwrap, wrap_eq_self (by linarith) (by linarith)]
  · -- the end of a turn is the start of the next one
    have hwrap := wrap_add_mul hP 0 (k + 1)
    rw [zero_add, wrap_eq_self le_rfl hP] at hwrap
    push_cast at hwrap
    have hfinish := h.lawful.along_finish 0 points
    rw [zero_add] at hfinish
    have hrest : (k + 1 : K) * ringPerimeter hypot points - k * ringPerimeter hypot points
        = ringPerimeter hypot points := by ring
    rw [hwrap, hrest, hfinish, ← h.closed]
    cases points with
    | nil => rfl
    | cons p l => exact h.lawful.along_start p l

/-- Between places with no vertex between them, at any turn, a ring runs straight. -/
theorem IsRing.ringAt_between (h : IsRing hypot points) (hab : a < b)
    (hfree : ∀ v ∈ cumulativeArclengths hypot points,
      Unmarked (ringPerimeter hypot points) a b v) :
    Straight (ringAt hypot points) a b := by
  have hP := h.perimeter_pos
  set P := ringPerimeter hypot points with hPdef
  set k := ⌊a / P⌋ with hk
  have hlow : (k : K) * P ≤ a := (le_div_iff₀ hP).mp (Int.floor_le _)
  have ha : a < (k + 1 : K) * P := (div_lt_iff₀ hP).mp (Int.lt_floor_add_one _)
  obtain ⟨cum, hcum⟩ := exists_cumulativeFrom hypot 0 points
  have hb : b ≤ (k + 1 : K) * P := by
    by_contra hgt
    refine hfree 0 ?_ (k + 1) ?_
    · unfold cumulativeArclengths
      rw [hcum]
      exact List.mem_cons_self
    · push_cast
      rw [zero_add]
      exact ⟨ha, not_le.mp hgt⟩
  have heq : ∀ t, a ≤ t → t ≤ b → ringAt hypot points t = along hypot 0 points (t - k * P) :=
    fun t hta htb => h.ringAt_eq (hlow.trans hta) (htb.trans hb)
  have hline : Straight (along hypot 0 points) (a - k * P) (b - k * P) :=
    h.lawful.along_between (by linarith) (by linarith) (by linarith) (fun v hv hbetween =>
      hfree v hv k ⟨by linarith, by linarith⟩)
  obtain ⟨hne, hstraight⟩ := hline
  refine ⟨?_, fun t hta htb => ?_⟩
  · rw [heq a le_rfl hab.le, heq b hab.le le_rfl]
    exact hne
  · rw [heq a le_rfl hab.le, heq b hab.le le_rfl, heq t hta htb,
      hstraight (t - k * P) (by linarith) (by linarith)]
    congr 2 <;> ring

/-- A vertex is where its length leads. -/
theorem IsRing.ringAt_vertex (h : IsRing hypot points) {e : K × Point K}
    (he : e ∈ (cumulativeArclengths hypot points).zip points) :
    ringAt hypot points e.1 = e.2 := by
  obtain ⟨hlow, hhigh⟩ := h.lawful.mem_cumulativeFrom (List.of_mem_zip he).1
  have hturn := h.ringAt_eq (u := e.1) (k := 0) (by simpa using hlow) (by simpa using hhigh)
  rw [hturn, Int.cast_zero, zero_mul, sub_zero]
  exact h.lawful.along_vertex he

end Turns

end Galdr.Eitri.Cutout
