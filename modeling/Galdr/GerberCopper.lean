import Galdr.Gerber

/-!
# What the copper covers

The image of a Gerber file is read in the plane, away from the edges of what was drawn. The
backend is exact if a union covers what its polygons cover, a difference what the first cover
and the second do not, and neither has an edge where they had none.

Every statement keeps that the polygons pushed so far paint what was drawn so far (`Shows`), and
the end lays them as coats, in any runs of one polarity (`assemble_covers`).
-/

namespace Galdr.Gerber

open Geo (Polygon GeoBackend)
open Painting

section Plane

variable {K : Type} [Field K] [LinearOrder K]

/-- The points on the edges of a ring. -/
def ringEdge (ring : Ring K) : Set (Coord K) := {x | ∃ e ∈ edges ring, x ∈ segment K e.1 e.2}

/-- The points on the edges of a polygon. -/
def polyEdge (poly : Polygon (Ring K)) : Set (Coord K) :=
  {x | ∃ ring ∈ poly.rings, x ∈ ringEdge ring}

/-- The points on the edges of polygons. -/
def edge (polys : List (Polygon (Ring K))) : Set (Coord K) := {x | ∃ p ∈ polys, x ∈ polyEdge p}

/-- The points that polygons cover. -/
def region (polys : List (Polygon (Ring K))) : Set (Coord K) := {x | ∃ p ∈ polys, x ∈ solid p}

/-- The backend is exact away from the edges of what it is given. -/
structure BackendExact (B : GeoBackend (Ring K)) : Prop where
  /-- A union covers what its polygons cover. -/
  union : ∀ polys merged, B.unionAll polys = .ok merged →
    edge merged ⊆ edge polys ∧ ∀ x ∉ edge polys, x ∈ region merged ↔ x ∈ region polys
  /-- A difference covers what the first cover and the second do not. -/
  difference : ∀ a b rest, B.difference a b = .ok rest →
    edge rest ⊆ edge a ∪ edge b ∧
      ∀ x, x ∉ edge a → x ∉ edge b → (x ∈ region rest ↔ x ∈ region a ∧ x ∉ region b)

namespace Drawn

/-- The points that a shape or a region covers: a region by the even-odd rule. -/
def covers : Drawn K → Set (Coord K)
  | shape polygons => Gerber.region polygons
  | region contours => evenOdd contours

/-- The points on its edges. -/
def edge : Drawn K → Set (Coord K)
  | shape polygons => Gerber.edge polygons
  | region contours => {x | ∃ ring ∈ contours, x ∈ ringEdge ring}

/-- The contours of a region nest. -/
def Proper (interiorPoint : Ring K → Option (Coord K)) : Drawn K → Prop
  | shape _ => True
  | region contours => Nests interiorPoint contours

end Drawn

/-- What was drawn, as coats. -/
def coats (drawn : List (Polarity × Drawn K)) : List (Bool × Set (Coord K)) :=
  drawn.map fun d => (d.1 = .dark, d.2.covers)

/-- The polygons, as coats. -/
def polygonCoats (primitives : List (Polarity × Polygon (Ring K))) : List (Bool × Set (Coord K)) :=
  primitives.map fun p => (p.1 = .dark, solid p.2)

/-- The polygons paint what was drawn, and have their edges there. -/
structure Shows (primitives : List (Polarity × Polygon (Ring K)))
    (drawn : List (Polarity × Drawn K)) : Prop where
  edges : ∀ p ∈ primitives, polyEdge p.2 ⊆ {x | ∃ d ∈ drawn, x ∈ d.2.edge}
  paints : ∀ x, (∀ d ∈ drawn, x ∉ d.2.edge) →
    (x ∈ painted (polygonCoats primitives) ↔ x ∈ painted (coats drawn))

variable {primitives : List (Polarity × Polygon (Ring K))} {drawn : List (Polarity × Drawn K)}
  {polys : List (Polygon (Ring K))} {d : Drawn K} {x : Coord K}

theorem painted_uniform (polarity : Polarity) (covered : Set (Coord K))
    (polys : List (Polygon (Ring K))) :
    x ∈ paintOver covered (polygonCoats (polys.map (polarity, ·)))
      ↔ x ∈ coat covered (polarity = .dark, region polys) := by
  have hcoats : polygonCoats (polys.map (polarity, ·))
      = (polys.map solid).map ((polarity = .dark : Bool), ·) := by
    simp [polygonCoats, Function.comp_def]
  have hregion : (⋃ s ∈ polys.map solid, s) = region polys := by
    ext y
    simp [region]
  rw [hcoats, mem_paintOver_uniform, hregion]

/-- **One more thing is drawn**: polygons under one polarity that cover what it covers. -/
theorem Shows.push (h : Shows primitives drawn) (polarity : Polarity)
    (hedge : edge polys ⊆ d.edge) (hcovers : ∀ x ∉ d.edge, x ∈ region polys ↔ x ∈ d.covers) :
    Shows (primitives ++ polys.map (polarity, ·)) (drawn ++ [(polarity, d)]) where
  edges p hp := by
    rcases List.mem_append.mp hp with hp | hp
    · intro y hy
      obtain ⟨e, he, hye⟩ := h.edges p hp hy
      exact ⟨e, List.mem_append_left _ he, hye⟩
    · obtain ⟨poly, hpoly, rfl⟩ := List.mem_map.mp hp
      intro y hy
      exact ⟨(polarity, d), List.mem_append_right drawn List.mem_cons_self,
        hedge ⟨poly, hpoly, hy⟩⟩
  paints x hx := by
    have hbefore := h.paints x fun e he => hx e (List.mem_append_left _ he)
    have hlast := hcovers x (hx (polarity, d) (List.mem_append_right drawn List.mem_cons_self))
    have hcoats : coats (drawn ++ [(polarity, d)])
        = coats drawn ++ [((polarity = .dark : Bool), d.covers)] := by
      simp [coats]
    have hpolygons : polygonCoats (primitives ++ polys.map (polarity, ·))
        = polygonCoats primitives ++ polygonCoats (polys.map (polarity, ·)) := by
      simp [polygonCoats]
    rw [hcoats, hpolygons, painted_append, painted_uniform, painted_concat]
    by_cases hmem : x ∈ d.covers
    · rw [mem_coat_of_mem (hlast.mpr hmem), mem_coat_of_mem hmem]
    · rw [mem_coat_of_notMem (mt hlast.mp hmem), mem_coat_of_notMem hmem, hbefore]

/-- A shape. -/
theorem Shows.shape (h : Shows primitives drawn) (polarity : Polarity)
    (polys : List (Polygon (Ring K))) :
    Shows (primitives ++ polys.map (polarity, ·)) (drawn ++ [(polarity, .shape polys)]) :=
  h.push polarity subset_rfl fun _ _ => Iff.rfl

/-- The rings of the polygons of a region are contours. -/
theorem mem_of_mem_assembleRegion {interiorPoint : Ring K → Option (Coord K)}
    {contours : List (Ring K)} {poly : Polygon (Ring K)} {ring : Ring K}
    (h : poly ∈ assembleRegion interiorPoint contours) (hring : ring ∈ poly.rings) :
    ring ∈ contours := by
  obtain ⟨k, -, -, rfl⟩ := mem_assembleRegion.mp h
  rcases List.mem_cons.mp hring with rfl | hring
  · exact List.getElem_mem k.isLt
  · obtain ⟨m, -, -, -, rfl⟩ := mem_holes.mp hring
    exact List.getElem_mem m.isLt

/-- What a traversal returns, it returns for one of the elements. -/
theorem exists_mem_of_mapM {A C E : Type} {f : A → Except E C} {l : List A} {cs : List C}
    (h : l.mapM f = .ok cs) {c : C} (hc : c ∈ cs) : ∃ a ∈ l, f a = .ok c := by
  have hiff := Geo.exists_mem_iff_of_mapM (P := fun c' => c' = c) (Q := fun a => f a = .ok c) h
    fun a _ c' hc' => by rw [hc']; exact ⟨congrArg Except.ok, Except.ok.inj⟩
  exact hiff.mp ⟨c, hc, rfl⟩

variable {B : GeoBackend (Ring K)}

/-- **A region**: polygons that are each cleaned on their own. -/
theorem Shows.region (h : Shows primitives drawn) (hB : BackendExact B) (polarity : Polarity)
    {interiorPoint : Ring K → Option (Coord K)} (hprobe : ProbeExact interiorPoint)
    {contours : List (Ring K)} (hnests : Nests interiorPoint contours)
    {cleaned : List (List (Polygon (Ring K)))}
    (hcleaned : (assembleRegion interiorPoint contours).mapM (fun poly => B.unionAll [poly])
      = .ok cleaned) :
    Shows (primitives ++ cleaned.flatten.map (polarity, ·))
      (drawn ++ [(polarity, .region contours)]) := by
  have hedge {poly : Polygon (Ring K)} (hpoly : poly ∈ assembleRegion interiorPoint contours) :
      polyEdge poly ⊆ (Drawn.region contours).edge := fun x ⟨ring, hring, hx⟩ =>
    ⟨ring, mem_of_mem_assembleRegion hpoly hring, hx⟩
  refine h.push polarity (fun x hx => ?_) fun x hx => ?_
  · obtain ⟨p, hp, hx⟩ := hx
    obtain ⟨group, hgroup, hp⟩ := List.mem_flatten.mp hp
    obtain ⟨poly, hpoly, hunion⟩ := exists_mem_of_mapM hcleaned hgroup
    obtain ⟨q, hq, hx⟩ := (hB.union [poly] group hunion).1 ⟨p, hp, hx⟩
    obtain rfl := List.mem_singleton.mp hq
    exact hedge hpoly hx
  · have hcovers := Geo.exists_mem_iff_of_mapM (P := fun group => x ∈ Gerber.region group)
      (Q := fun poly => x ∈ solid poly) hcleaned fun poly hpoly group hunion => by
        have hoff : x ∉ Gerber.edge [poly] := fun ⟨q, hq, hxq⟩ => by
          obtain rfl := List.mem_singleton.mp hq
          exact hx (hedge hpoly hxq)
        rw [(hB.union [poly] group hunion).2 x hoff]
        simp [Gerber.region]
    have hflatten : x ∈ Gerber.region cleaned.flatten ↔ ∃ group ∈ cleaned, x ∈ Gerber.region group := by
      simp only [Gerber.region, List.mem_flatten, Set.mem_ofPred_eq]
      exact ⟨fun ⟨p, ⟨group, hgroup, hp⟩, hx⟩ => ⟨group, hgroup, p, hp, hx⟩,
        fun ⟨group, hgroup, p, hp, hx⟩ => ⟨p, ⟨group, hgroup, hp⟩, hx⟩⟩
    rw [hflatten, hcovers, exists_mem_solid_iff hprobe hnests]
    rfl

end Plane

namespace Interpreter

variable {K : Type} [Field K] [LinearOrder K] {T : Tools K} {B : GeoBackend (Ring K)}
  {s s' : Interpreter T}

/-- The polygons show what was drawn, if the contours of the regions nest. -/
def Faithful (s : Interpreter T) : Prop :=
  (∀ d ∈ s.drawn, d.2.Proper T.interiorPoint) → Shows s.primitives s.drawn

theorem faithful_new : (new T).Faithful := fun _ =>
  ⟨fun _ hp => absurd hp List.not_mem_nil, fun _ _ => Iff.rfl⟩

/-- What draws nothing keeps it. -/
theorem Faithful.same (h : s.Faithful) (hprimitives : s'.primitives = s.primitives)
    (hdrawn : s'.drawn = s.drawn) : s'.Faithful := by
  unfold Faithful
  rw [hprimitives, hdrawn]
  exact h

theorem Faithful.pushMultipolygon (h : s.Faithful) (polygons : List (Polygon (Ring K))) :
    (s.pushMultipolygon polygons).Faithful := fun hproper =>
  (h fun d hd => hproper d (List.mem_append_left _ hd)).shape s.polarity polygons

theorem Faithful.stroke (h : s.Faithful) {line : ℕ} {tx ty : K} {i j : Option K}
    (hstroke : s.stroke line tx ty i j = .ok s') : s'.Faithful := by
  unfold Interpreter.stroke at hstroke
  obtain ⟨aperture, -, hstroke⟩ := Geo.exists_ok_of_bind hstroke
  cases hradius : T.strokeRadius aperture with
  | none =>
    rw [hradius] at hstroke
    cases hstroke
  | some radius =>
    rw [hradius] at hstroke
    obtain ⟨path, -, hstroke⟩ := Geo.exists_ok_of_bind hstroke
    obtain ⟨band, -, hstroke⟩ := Geo.exists_ok_of_bind hstroke
    obtain rfl := Except.ok.inj hstroke
    exact h.pushMultipolygon band

theorem Faithful.flash (h : s.Faithful) {line : ℕ} {tx ty : K}
    (hflash : s.flash line tx ty = .ok s') : s'.Faithful := by
  unfold Interpreter.flash at hflash
  obtain ⟨aperture, -, hflash⟩ := Geo.exists_ok_of_bind hflash
  obtain ⟨scale, -, hflash⟩ := Geo.exists_ok_of_bind hflash
  obtain ⟨geom, -, hflash⟩ := Geo.exists_ok_of_bind hflash
  obtain rfl := Except.ok.inj hflash
  exact h.pushMultipolygon geom

theorem Faithful.regionInterpolate (h : s.Faithful) {line : ℕ} {tx ty : K} {i j : Option K}
    (hdraw : s.regionInterpolate line tx ty i j = .ok s') : s'.Faithful := by
  unfold Interpreter.regionInterpolate at hdraw
  obtain ⟨path, -, hdraw⟩ := Geo.exists_ok_of_bind hdraw
  obtain rfl := Except.ok.inj hdraw
  exact h.same rfl rfl

theorem Faithful.finishRegionContour (h : s.Faithful) : s.finishRegionContour.Faithful := by
  unfold Interpreter.finishRegionContour
  split <;> exact h.same rfl rfl

/-- An error of the backend aside, the parser has the result of the backend. -/
theorem eq_ok_of_ofBackend {A : Type} {result : Except Geo.Error A} {a : A}
    (h : ofBackend result = .ok a) : result = .ok a := by
  cases result with
  | error e => cases h
  | ok b => exact congrArg _ (Except.ok.inj h)

theorem Faithful.emitRegion (h : s.Faithful) (hB : BackendExact B)
    (hprobe : ProbeExact T.interiorPoint) (hemit : s.emitRegion B = .ok s') : s'.Faithful := by
  unfold Interpreter.emitRegion at hemit
  obtain ⟨cleaned, hcleaned, hemit⟩ := Geo.exists_ok_of_bind hemit
  obtain rfl := Except.ok.inj hemit
  intro hproper
  have hbefore := h fun d hd => hproper d (List.mem_append_left _ hd)
  have hnests := hproper (s.polarity, .region s.regionContours)
    (List.mem_append_right s.drawn List.mem_cons_self)
  exact hbefore.region hB s.polarity hprobe hnests (eq_ok_of_ofBackend hcleaned)

theorem Faithful.applyGCode (h : s.Faithful) (hB : BackendExact B)
    (hprobe : ProbeExact T.interiorPoint) {line : ℕ} {value : List Char}
    (hcode : s.applyGCode B line value = .ok s') : s'.Faithful := by
  unfold Interpreter.applyGCode at hcode
  repeat' split at hcode
  iterate 4
    · obtain rfl := Except.ok.inj hcode
      exact h.same rfl rfl
  · -- the end of a region
    obtain ⟨t, hemit, hcode⟩ := Geo.exists_ok_of_bind hcode
    obtain rfl := Except.ok.inj hcode
    exact (h.finishRegionContour.emitRegion hB hprobe hemit).same rfl rfl
  · cases hcode
  · obtain rfl := Except.ok.inj hcode; exact h
  · cases hcode

theorem Faithful.operate (h : s.Faithful) {line op : ℕ} {tx ty : K} {i j : Option K}
    (hop : s.operate line op tx ty i j = .ok s') : s'.Faithful := by
  unfold Interpreter.operate at hop
  split at hop
  · dsimp only at hop
    split at hop
    · obtain ⟨t, hdraw, hop⟩ := Geo.exists_ok_of_bind hop
      obtain rfl := Except.ok.inj hop
      exact (h.regionInterpolate hdraw).same rfl rfl
    · obtain ⟨t, hdraw, hop⟩ := Geo.exists_ok_of_bind hop
      obtain rfl := Except.ok.inj hop
      exact (h.stroke hdraw).same rfl rfl
  split at hop
  · obtain rfl := Except.ok.inj hop
    split
    · exact h.finishRegionContour.same rfl rfl
    · exact h.same rfl rfl
  split at hop
  · split at hop
    · cases hop
    · obtain ⟨t, hflash, hop⟩ := Geo.exists_ok_of_bind hop
      obtain rfl := Except.ok.inj hop
      exact (h.flash hflash).same rfl rfl
  · cases hop

theorem Faithful.letter (hB : BackendExact B) (hprobe : ProbeExact T.interiorPoint) {line : ℕ}
    {w : Char × List Char} {st st' : Interpreter T × Block K} (h : st.1.Faithful)
    (hletter : letter B line st w = .ok st') : st'.1.Faithful := by
  obtain ⟨s, b⟩ := st
  obtain ⟨letter, value⟩ := w
  unfold Interpreter.letter at hletter
  dsimp only at hletter
  split at hletter
  · obtain ⟨t, hcode, hletter⟩ := Geo.exists_ok_of_bind hletter
    obtain rfl := Except.ok.inj hletter
    exact Faithful.applyGCode h hB hprobe hcode
  split at hletter
  · split at hletter
    · cases hletter
    · split at hletter
      · split at hletter
        · cases hletter
        · obtain rfl := Except.ok.inj hletter
          exact h.same rfl rfl
      · obtain rfl := Except.ok.inj hletter
        exact h
  repeat' split at hletter
  iterate 4
    · obtain ⟨v, -, hletter⟩ := Geo.exists_ok_of_bind hletter
      obtain rfl := Except.ok.inj hletter
      exact h
  · obtain rfl := Except.ok.inj hletter
    exact h
  · cases hletter

theorem Faithful.execute (h : s.Faithful) {line : ℕ} {b : Block K}
    (hexecute : s.execute line b = .ok s') : s'.Faithful := by
  unfold Interpreter.execute at hexecute
  split at hexecute
  · rename_i op _
    exact Faithful.operate (s := { s with modalOp := some op }) (h.same rfl rfl) hexecute
  split at hexecute
  · split at hexecute
    · exact h.operate hexecute
    · obtain rfl := Except.ok.inj hexecute
      exact h.same rfl rfl
  · obtain rfl := Except.ok.inj hexecute
    exact h

theorem Faithful.word (h : s.Faithful) (hB : BackendExact B) (hprobe : ProbeExact T.interiorPoint)
    {line : ℕ} {text : List Char} (hword : s.word B line text = .ok s') : s'.Faithful := by
  unfold Interpreter.word at hword
  split at hword
  · obtain rfl := Except.ok.inj hword
    exact h
  · obtain ⟨st, hletters, hword⟩ := Geo.exists_ok_of_bind hword
    have hst : st.1.Faithful := Geo.foldlM_invariant (P := fun st => st.1.Faithful)
      (fun _ _ _ hst hletter => Faithful.letter hB hprobe hst hletter) h hletters
    exact hst.execute hword

theorem Faithful.extended (h : s.Faithful) {line : ℕ} {blocks : List (List Char)}
    (hextended : s.extended line blocks = .ok s') : s'.Faithful := by
  unfold Interpreter.extended at hextended
  split at hextended
  · obtain rfl := Except.ok.inj hextended
    exact h
  dsimp only at hextended
  split at hextended
  · obtain ⟨format, -, hextended⟩ := Geo.exists_ok_of_bind hextended
    split at hextended
    · cases hextended
    · obtain rfl := Except.ok.inj hextended
      exact h.same rfl rfl
  split at hextended
  · obtain ⟨unit, -, hextended⟩ := Geo.exists_ok_of_bind hextended
    obtain rfl := Except.ok.inj hextended
    exact h.same rfl rfl
  split at hextended
  · obtain ⟨scale, -, hextended⟩ := Geo.exists_ok_of_bind hextended
    obtain ⟨⟨number, aperture⟩, -, hextended⟩ := Geo.exists_ok_of_bind hextended
    obtain rfl := Except.ok.inj hextended
    exact h.same rfl rfl
  split at hextended
  · obtain ⟨macroDef, -, hextended⟩ := Geo.exists_ok_of_bind hextended
    obtain rfl := Except.ok.inj hextended
    exact h.same rfl rfl
  split at hextended
  · obtain ⟨polarity, -, hextended⟩ := Geo.exists_ok_of_bind hextended
    obtain rfl := Except.ok.inj hextended
    exact h.same rfl rfl
  split at hextended
  · obtain rfl := Except.ok.inj hextended
    exact h
  split at hextended
  · unfold Interpreter.imagePolarity at hextended
    repeat' split at hextended
    · obtain rfl := Except.ok.inj hextended
      exact h
    · cases hextended
    · cases hextended
  · split at hextended <;> cases hextended

/-- **One statement** keeps that the polygons show what was drawn. -/
theorem Faithful.step (h : s.Faithful) (hB : BackendExact B) (hprobe : ProbeExact T.interiorPoint)
    {located : Located} (hstep : s.step B located = .ok s') : s'.Faithful := by
  unfold Interpreter.step at hstep
  split at hstep
  · exact h.extended hstep
  · exact h.word hB hprobe hstep

/-- **The statements of a file**, from the first. -/
theorem faithful_run (hB : BackendExact B) (hprobe : ProbeExact T.interiorPoint)
    {statements : List Located} (hrun : run B T statements = .ok s) : s.Faithful :=
  Geo.foldlM_invariant (P := Faithful) (fun _ _ _ h hstep => h.step hB hprobe hstep) faithful_new
    hrun

/-! ## Runs of one polarity -/

variable {primitives : List (Polarity × Polygon (Ring K))}
  {runs : List (Polarity × List (Polygon (Ring K)))} {copper copper' : List (Polygon (Ring K))}
  {x : Coord K}

/-- The polygons of runs. -/
def ungrouped (runs : List (Polarity × List (Polygon (Ring K)))) :
    List (Polarity × Polygon (Ring K)) := runs.flatMap fun g => g.2.map (g.1, ·)

omit [Field K] [LinearOrder K] in
theorem ungrouped_groups (primitives : List (Polarity × Polygon (Ring K))) :
    ungrouped (groups primitives) = primitives := by
  induction primitives with
  | nil => rfl
  | cons p rest ih =>
    obtain ⟨polarity, poly⟩ := p
    unfold groups
    cases hgroups : groups rest with
    | nil =>
      rw [hgroups] at ih
      simp only [ungrouped, List.flatMap_cons, List.flatMap_nil] at ih ⊢
      rw [← ih]
      rfl
    | cons g more =>
      obtain ⟨next, group⟩ := g
      rw [hgroups] at ih
      dsimp only
      split
      · rename_i hsame
        subst hsame
        simp only [ungrouped, List.flatMap_cons, List.map_cons, List.cons_append] at ih ⊢
        rw [← ih]
      · simp only [ungrouped, List.flatMap_cons, List.map_cons, List.map_nil, List.cons_append,
          List.nil_append] at ih ⊢
        rw [← ih]

theorem region_append (a b : List (Polygon (Ring K))) : region (a ++ b) = region a ∪ region b := by
  ext y
  simp [region, or_and_right, exists_or]

theorem edge_append (a b : List (Polygon (Ring K))) : edge (a ++ b) = edge a ∪ edge b := by
  ext y
  simp [edge, or_and_right, exists_or]

/-- **One run** is a coat, away from the edges. -/
theorem addGroup_covers (hB : BackendExact B) {g : Polarity × List (Polygon (Ring K))}
    (h : addGroup B copper g = .ok copper') :
    edge copper' ⊆ edge copper ∪ edge g.2 ∧
      ∀ x, x ∉ edge copper → x ∉ edge g.2 →
        (x ∈ region copper' ↔ x ∈ coat (region copper) (g.1 = .dark, region g.2)) := by
  obtain ⟨polarity, polys⟩ := g
  unfold addGroup at h
  obtain ⟨merged, hmerged, h⟩ := Geo.exists_ok_of_bind h
  obtain ⟨hedge, hregion⟩ := hB.union polys merged hmerged
  cases polarity with
  | dark =>
    obtain ⟨hedge', hregion'⟩ := hB.union _ _ h
    rw [edge_append] at hedge' hregion'
    refine ⟨hedge'.trans (Set.union_subset_union_right _ hedge), fun x hx hxg => ?_⟩
    rw [hregion' x fun hmem => hmem.elim hx fun hmem => hxg (hedge hmem), region_append]
    simp [coat, hregion x hxg]
  | clear =>
    obtain ⟨hedge', hregion'⟩ := hB.difference _ _ _ h
    refine ⟨hedge'.trans (Set.union_subset_union_right _ hedge), fun x hx hxg => ?_⟩
    rw [hregion' x hx fun hmem => hxg (hedge hmem)]
    simp [coat, hregion x hxg]

/-- **The copper of runs is what their polygons paint**, whatever the runs are. -/
theorem assemble_covers (hB : BackendExact B) (h : runs.foldlM (addGroup B) copper = .ok copper')
    (hx : x ∉ edge copper) (hruns : ∀ g ∈ runs, x ∉ edge g.2) :
    x ∈ region copper' ↔ x ∈ paintOver (region copper) (polygonCoats (ungrouped runs)) := by
  induction runs generalizing copper with
  | nil =>
    obtain rfl : copper = copper' := Except.ok.inj h
    rfl
  | cons g runs ih =>
    rw [List.foldlM_cons] at h
    obtain ⟨next, hnext, h⟩ := Geo.exists_ok_of_bind h
    obtain ⟨hedge, hcovers⟩ := addGroup_covers hB hnext
    have hxg := hruns g List.mem_cons_self
    have hoff : x ∉ edge next := fun hmem => (hedge hmem).elim hx hxg
    rw [ih h hoff fun e he => hruns e (List.mem_cons_of_mem g he)]
    have hcoats : polygonCoats (ungrouped (g :: runs))
        = polygonCoats (g.2.map (g.1, ·)) ++ polygonCoats (ungrouped runs) := by
      simp [ungrouped, polygonCoats]
    rw [hcoats, paintOver, paintOver, List.foldl_append]
    refine mem_paintOver_congr _ ?_
    rw [hcovers x hx hxg]
    exact (painted_uniform g.1 (region copper) g.2).symm

theorem edge_nil : edge ([] : List (Polygon (Ring K))) = ∅ := by
  simp [edge]

theorem region_nil : region ([] : List (Polygon (Ring K))) = ∅ := by
  simp [region]

/-- **What was drawn over a point last** decides, for any runs of the polygons. -/
theorem Faithful.covers (h : s.Faithful) (hB : BackendExact B)
    (hproper : ∀ d ∈ s.drawn, d.2.Proper T.interiorPoint) (hruns : ungrouped runs = s.primitives)
    (hcopper : assemble B runs = .ok copper) (hx : ∀ d ∈ s.drawn, x ∉ d.2.edge) :
    x ∈ region copper ↔ ∃ before d after, s.drawn = before ++ (.dark, d) :: after
      ∧ x ∈ d.covers ∧ ∀ e ∈ after, x ∉ e.2.covers := by
  have hshows := h hproper
  have hoff : ∀ g ∈ runs, x ∉ edge g.2 := by
    rintro g hg ⟨poly, hpoly, hxp⟩
    have hmem : (g.1, poly) ∈ s.primitives := by
      rw [← hruns]
      exact List.mem_flatMap.mpr ⟨g, hg, List.mem_map.mpr ⟨poly, hpoly, rfl⟩⟩
    obtain ⟨d, hd, hxd⟩ := hshows.edges _ hmem hxp
    exact hx d hd hxd
  rw [assemble_covers hB hcopper (by rw [edge_nil]; exact Set.notMem_empty x) hoff, region_nil,
    hruns]
  refine (hshows.paints x hx).trans (mem_painted_iff.trans ?_)
  constructor
  · rintro ⟨before, covers, after, hsplit, hmem, hafter⟩
    obtain ⟨first, rest, hdrawn, -, hrest⟩ := List.map_eq_append_iff.mp hsplit
    obtain ⟨d, last, rfl, hd, rfl⟩ := List.map_eq_cons_iff.mp hrest
    obtain ⟨hdark, rfl⟩ := Prod.mk.inj hd
    refine ⟨first, d.2, last, ?_, hmem, fun e he => hafter _ (List.mem_map_of_mem he)⟩
    rw [hdrawn, ← of_decide_eq_true hdark]
  · rintro ⟨before, d, after, hsplit, hmem, hafter⟩
    refine ⟨coats before, d.covers, coats after, ?_, hmem, fun e he => ?_⟩
    · rw [hsplit]
      simp [coats]
    · obtain ⟨drawn, hdrawn, rfl⟩ := List.mem_map.mp he
      exact hafter drawn hdrawn

end Interpreter

open Interpreter

section Image

variable {K : Type} [Field K] [LinearOrder K] {T : Tools K} {B : GeoBackend (Ring K)}

end Image

/-! ## Two squares -/

/-- A square, from its lower left corner around. -/
def square (low high : ℚ) : Ring ℚ :=
  [(low, low), (high, low), (high, high), (low, high), (low, low)]

/-- The value of digits. -/
def digits (text : List Char) : ℚ := text.foldl (fun n c => 10 * n + (c.toNat - 48 : ℕ)) 0

/-- A backend that unites one polygon at most, and takes nothing away. -/
def oneBackend : GeoBackend (Ring ℚ) where
  offset _ _ _ _ := .error .cancelled
  unionAll polys := if polys.length ≤ 1 then .ok polys else .error .cancelled
  difference a b := if b = [] then .ok a else .error .cancelled
  normalizeWinding p _ := p

open Classical in
/-- The middle of a square, and some point inside another ring. -/
noncomputable def middle (ring : Ring ℚ) : Option (Coord ℚ) :=
  if ring = square 0 10 ∨ ring = square 3 7 then some (5, 5)
  else if h : (inside ring).Nonempty then some h.some else none

/-- Whole millimetres, and no apertures. -/
noncomputable def wholeTools : Tools ℚ where
  Format := Unit
  Aperture := Unit
  Macro := Unit
  parseFs _ _ := .ok ()
  incremental _ := false
  decode _ text _ := .ok (digits text)
  mmPerUnit _ := 1
  parseAd _ _ _ := .error .missingFormat
  parseMacro _ _ _ := .error .missingFormat
  strokeRadius _ := none
  flash _ _ _ _ _ _ := .ok []
  bufferPath _ _ := .ok []
  flattenArc _ _ _ _ _ _ _ := []
  interiorPoint := middle

theorem backendExact_oneBackend : BackendExact oneBackend where
  union polys merged h := by
    unfold oneBackend at h
    dsimp only at h
    split at h
    · obtain rfl := Except.ok.inj h
      exact ⟨subset_rfl, fun _ _ => Iff.rfl⟩
    · cases h
  difference a b rest h := by
    unfold oneBackend at h
    dsimp only at h
    split at h
    · rename_i hb
      subst hb
      obtain rfl := Except.ok.inj h
      simp [edge_nil, region_nil]
    · cases h

theorem probeExact_middle : ProbeExact middle := by
  intro ring hring
  unfold middle
  by_cases hsquare : ring = square 0 10 ∨ ring = square 3 7
  · rw [if_pos hsquare]
    refine ⟨(5, 5), rfl, ?_⟩
    rcases hsquare with rfl | rfl
    · show pointInRing ((5, 5) : Coord ℚ) (square 0 10) = true
      decide +kernel
    · show pointInRing ((5, 5) : Coord ℚ) (square 3 7) = true
      decide +kernel
  · rw [if_neg hsquare, dif_pos hring]
    exact ⟨_, rfl, hring.some_mem⟩

/-- The statements of a region of two squares, one around the other. -/
def twoSquares : List Located :=
  [⟨1, .extended [['F', 'S', 'L', 'A', 'X', '4', '0', 'Y', '4', '0']]⟩,
    ⟨2, .extended [['M', 'O', 'M', 'M']]⟩, ⟨3, .word ['G', '3', '6']⟩,
    ⟨4, .word ['X', '0', 'Y', '0', 'D', '0', '2']⟩,
    ⟨5, .word ['X', '1', '0', 'Y', '0', 'D', '0', '1']⟩,
    ⟨6, .word ['X', '1', '0', 'Y', '1', '0', 'D', '0', '1']⟩,
    ⟨7, .word ['X', '0', 'Y', '1', '0', 'D', '0', '1']⟩,
    ⟨8, .word ['X', '0', 'Y', '0', 'D', '0', '1']⟩,
    ⟨9, .word ['X', '3', 'Y', '3', 'D', '0', '2']⟩,
    ⟨10, .word ['X', '7', 'Y', '3', 'D', '0', '1']⟩,
    ⟨11, .word ['X', '7', 'Y', '7', 'D', '0', '1']⟩,
    ⟨12, .word ['X', '3', 'Y', '7', 'D', '0', '1']⟩,
    ⟨13, .word ['X', '3', 'Y', '3', 'D', '0', '1']⟩, ⟨14, .word ['G', '3', '7']⟩]

/-- The square with the hole is gone: nothing is pushed. -/
theorem run_twoSquares :
    (run oneBackend wholeTools twoSquares).toOption.map (·.primitives) = some []
      ∧ (run oneBackend wholeTools twoSquares).toOption.map (·.drawn)
        = some [(.dark, .region [square 0 10, square 3 7])]
      ∧ (run oneBackend wholeTools twoSquares).toOption.map (·.format.isSome) = some true := by
  decide +kernel

theorem exists_of_toOption_map {E A C : Type} {result : Except E A} {f : A → C} {c : C}
    (h : result.toOption.map f = some c) : ∃ a, result = .ok a ∧ f a = c := by
  cases result with
  | error e => cases h
  | ok a => exact ⟨a, rfl, Option.some.inj h⟩

/-- A point outside the box of each edge is on no edge. -/
theorem notMem_ringEdge {ring : Ring ℚ} {x : Coord ℚ}
    (h : ∀ e ∈ edges ring, ¬((min e.1.1 e.2.1 ≤ x.1 ∧ x.1 ≤ max e.1.1 e.2.1)
      ∧ min e.1.2 e.2.2 ≤ x.2 ∧ x.2 ≤ max e.1.2 e.2.2)) : x ∉ ringEdge ring := by
  rintro ⟨e, he, hx⟩
  obtain ⟨a, b, ha, hb, hab, rfl⟩ := hx
  have hfirst := segment_subset_uIcc e.1.1 e.2.1 ⟨a, b, ha, hb, hab, rfl⟩
  have hsecond := segment_subset_uIcc e.1.2 e.2.2 ⟨a, b, ha, hb, hab, rfl⟩
  exact h e he ⟨hfirst, hsecond⟩

/-- The image of statements that end as said. -/
theorem exists_image {T : Tools ℚ} {B : GeoBackend (Ring ℚ)} {statements : List Located}
    {primitives : List (Polarity × Polygon (Ring ℚ))} {drawn : List (Polarity × Drawn ℚ)}
    {copper : List (Polygon (Ring ℚ))}
    (h : (run B T statements).toOption.map (·.primitives) = some primitives
      ∧ (run B T statements).toOption.map (·.drawn) = some drawn
      ∧ (run B T statements).toOption.map (·.format.isSome) = some true)
    (hcopper : assemble B (groups primitives) = .ok copper) :
    ∃ s image, run B T statements = .ok s ∧ s.drawn = drawn
      ∧ parseGerber B T statements = .ok image ∧ image.copper = copper := by
  obtain ⟨s, hrun, rfl⟩ := exists_of_toOption_map h.1
  have hdrawn : s.drawn = drawn := by simpa [hrun, Except.toOption] using h.2.1
  have hformat : s.format.isSome = true := by simpa [hrun, Except.toOption] using h.2.2
  obtain ⟨format, hformat⟩ := Option.isSome_iff_exists.mp hformat
  refine ⟨s, ⟨copper, s.apertures, s.unit.getD .millimeters, format⟩, hrun, hdrawn, ?_, rfl⟩
  have hfinish : parseGerber B T statements = s.finish B := by
    unfold parseGerber
    rw [hrun]
    rfl
  rw [hfinish]
  unfold finish
  simp only [hformat, hcopper]
  rfl

/-- The statements of a region of one square. -/
def oneSquare : List Located := twoSquares.take 8 ++ [⟨9, .word ['G', '3', '7']⟩]

theorem run_oneSquare :
    (run oneBackend wholeTools oneSquare).toOption.map (·.primitives)
        = some [(.dark, ⟨square 0 10, []⟩)]
      ∧ (run oneBackend wholeTools oneSquare).toOption.map (·.drawn)
        = some [(.dark, .region [square 0 10])]
      ∧ (run oneBackend wholeTools oneSquare).toOption.map (·.format.isSome) = some true := by
  decide +kernel

theorem nests_singleton (interiorPoint : Ring ℚ → Option (Coord ℚ)) (ring : Ring ℚ) :
    Nests interiorPoint [ring] where
  apart k m hne := absurd ((Fin.subsingleton_one).elim k m) hne
  probed k m hne := absurd ((Fin.subsingleton_one).elim k m) hne

end Galdr.Gerber
