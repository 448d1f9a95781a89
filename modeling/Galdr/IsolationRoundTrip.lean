import Galdr.CutPolylines
import Galdr.RenderedMoves

/-!
# An isolation job that is read back

The program of an isolation job is rendered, read back and shown as lines in the plane. Every
point comes back as it was printed, in order. A line ends at a rapid. Between the passes along an
open ring there is one, and so a pass is a line. Between the passes along a closed ring there is
none, since the tool plunges where the pass ended: the passes come back as one line.
-/

namespace Galdr.Eitri

open Import

/-! ## Calls as lines -/

/-- The state of the tool and of the lines. -/
abbrev Drawing := Point3 ℚ × Polylines ℚ

namespace Hook

/-- Another call. -/
def draw (d : Drawing) (hook : Hook ℚ) : Drawing :=
  (hook.dest d.1, (hook.preview d.1).foldl Polylines.step d.2)

theorem foldl_previews (hooks : List (Hook ℚ)) (d : Drawing) :
    (previews d.1 hooks).foldl Polylines.step d.2 = (hooks.foldl draw d).2 := by
  induction hooks generalizing d with
  | nil => rfl
  | cons hook hooks ih =>
    unfold previews
    rw [List.foldl_append, List.foldl_cons]
    exact ih (hook.draw d)

end Hook

/-- Where the tool is in the plane, the lines that are complete, and the run so far. -/
structure DrawnAt (d : Drawing) (q : ℚ × ℚ) (out : List (List (ℚ × ℚ))) (cur : List (ℚ × ℚ)) :
    Prop where
  pos : d.1.xy = q
  lines : d.2 = ⟨out, cur⟩

/-- A run that has begun and has come to a point: it does not change when it is extended to that
point again. -/
structure RunTo (q : ℚ × ℚ) (cur : List (ℚ × ℚ)) : Prop where
  begun : cur ≠ []
  settled : Polylines.extend cur q = cur

theorem coincident_self (q : ℚ × ℚ) : coincident q q = true := by
  unfold coincident
  rw [sub_self, sub_self, abs_zero, Bool.and_eq_true, decide_eq_true_iff]
  unfold geomEpsilonMm
  exact ⟨by norm_num, by norm_num⟩

theorem runTo_concat (cur : List (ℚ × ℚ)) (q : ℚ × ℚ) : RunTo q (cur ++ [q]) := by
  refine ⟨List.append_ne_nil_of_right_ne_nil _ (List.cons_ne_nil _ _), ?_⟩
  unfold Polylines.extend
  rw [List.getLast?_concat]
  exact if_pos (coincident_self q)

/-- A run comes to the point that it is extended to. -/
theorem RunTo.extend {q : ℚ × ℚ} {cur : List (ℚ × ℚ)} (h : RunTo q cur) (p : ℚ × ℚ) :
    RunTo p (Polylines.extend cur p) := by
  by_cases hnear : cur.getLast?.any (coincident · p) = true
  · have hsame : Polylines.extend cur p = cur := if_pos hnear
    exact ⟨hsame.symm ▸ h.begun, congrArg (Polylines.extend · p) hsame⟩
  · have hmore : Polylines.extend cur p = cur ++ [p] := if_neg hnear
    exact hmore.symm ▸ runTo_concat cur p

/-- The lines when a run ends. -/
def endRun (out : List (List (ℚ × ℚ))) (cur : List (ℚ × ℚ)) : List (List (ℚ × ℚ)) :=
  if 2 ≤ cur.length then out ++ [cur] else out

/-- Where the two axes are printed to be. -/
def printedXY (x y : ℚ) : ℚ × ℚ := (printed 4 x, printed 4 y)

namespace DrawnAt

variable {d : Drawing} {q : ℚ × ℚ} {out : List (List (ℚ × ℚ))} {cur : List (ℚ × ℚ)}

/-- A rapid along the spindle ends the run. -/
theorem lift (h : DrawnAt d q out cur) (z : ℚ) :
    DrawnAt (Hook.draw d (.rapid (.onlyZ z))) q (endRun out cur) [] := by
  refine ⟨h.pos, ?_⟩
  show d.2.pushRun = _
  rw [h.lines]
  rfl

/-- A rapid in the plane ends the run. -/
theorem rapid (h : DrawnAt d q out cur) (x y : ℚ) :
    DrawnAt (Hook.draw d (.rapid (.xy x y))) (printedXY x y) (endRun out cur) [] := by
  refine ⟨rfl, ?_⟩
  show d.2.pushRun = _
  rw [h.lines]
  rfl

/-- A plunge begins a run. -/
theorem plunge_first (h : DrawnAt d q out []) (z feed : ℚ) :
    DrawnAt (Hook.draw d (.linear (.onlyZ z) feed)) q out [q] := by
  refine ⟨h.pos, ?_⟩
  show (⟨d.2.out, Polylines.extend (if d.2.cur = [] then [d.1.xy] else d.2.cur) d.1.xy⟩ : Polylines ℚ)
    = _
  rw [h.lines, h.pos, if_pos rfl]
  exact congrArg _ (runTo_concat [] q).settled

/-- A plunge within a run leaves no trace. -/
theorem plunge (h : DrawnAt d q out cur) (hrun : RunTo q cur) (z feed : ℚ) :
    DrawnAt (Hook.draw d (.linear (.onlyZ z) feed)) q out cur := by
  refine ⟨h.pos, ?_⟩
  show (⟨d.2.out, Polylines.extend (if d.2.cur = [] then [d.1.xy] else d.2.cur) d.1.xy⟩ : Polylines ℚ)
    = _
  rw [h.lines, h.pos, if_neg hrun.begun, hrun.settled]

/-- A cut extends the run. -/
theorem cut (h : DrawnAt d q out cur) (hrun : RunTo q cur) (x y feed : ℚ) :
    DrawnAt (Hook.draw d (.linear (.xy x y) feed)) (printedXY x y) out
      (Polylines.extend cur (printedXY x y)) := by
  refine ⟨rfl, ?_⟩
  show (⟨d.2.out, Polylines.extend (if d.2.cur = [] then [d.1.xy] else d.2.cur) (printedXY x y)⟩ :
    Polylines ℚ) = _
  rw [h.lines, if_neg hrun.begun]

end DrawnAt

/-! ## Rings as lines -/

/-- Where a point is printed to be. -/
def printedPoint (origin : Origin ℚ) (p : Point ℚ) : ℚ × ℚ :=
  printedXY (p.x - origin.x) (p.y - origin.y)

/-- The points of a ring, as they are printed. -/
def printedPoints (origin : Origin ℚ) (ring : IsolationRing (RingPath ℚ)) : List (ℚ × ℚ) :=
  ring.geometry.points.map (printedPoint origin)

/-- How many times a job cuts along a ring. -/
def passCount (job : IsolationJob ℚ) : ℕ := (depthSteps job.cutDepth job.passDepth).length

/-- The lines of a ring: one for each pass along an open ring, and a single one for all passes
along a closed ring. -/
def ringLines (job : IsolationJob ℚ) (origin : Origin ℚ) (ring : IsolationRing (RingPath ℚ)) :
    List (List (ℚ × ℚ)) :=
  let points := printedPoints origin ring
  if ring.geometry.isClosed then
    -- every further pass begins where the one before it ended
    [(points ++ (List.replicate (passCount job - 1) points.tail).flatten).destutter (· ≠ ·)]
  else List.replicate (passCount job) points

/-- There is a pass. -/
theorem exists_depthSteps (job : IsolationJob ℚ) :
    ∃ z depths, depthSteps job.cutDepth job.passDepth = z :: depths := by
  unfold depthSteps
  split
  · exact ⟨_, _, rfl⟩
  · rw [depthLevels]
    split
    · exact ⟨_, _, rfl⟩
    · exact ⟨_, _, rfl⟩

/-- What is printed is on the grid. -/
theorem onGrid_printed (x : ℚ) : OnGrid (printed 4 x) := ⟨roundf (x * 10 ^ 4), rfl⟩

section Ring

variable (job : IsolationJob ℚ) (origin : Origin ℚ) {out : List (List (ℚ × ℚ))}

/-- The cuts to points extend the run to them. -/
theorem drawn_cuts {d : Drawing} {q : ℚ × ℚ} {cur : List (ℚ × ℚ)} (h : DrawnAt d q out cur)
    (hrun : RunTo q cur) (points : List (Point ℚ)) :
    ∃ q', DrawnAt ((emitRingSegments (points.map fun p => .line p.x p.y) job.cutFeed origin).foldl
        Hook.draw d) q' out ((points.map (printedPoint origin)).foldl Polylines.extend cur)
      ∧ RunTo q' ((points.map (printedPoint origin)).foldl Polylines.extend cur) := by
  induction points generalizing d q cur with
  | nil => exact ⟨q, h, hrun⟩
  | cons p points ih =>
    exact ih (h.cut hrun (p.x - origin.x) (p.y - origin.y) job.cutFeed) (hrun.extend _)

/-- The points after the first, as they are printed. -/
theorem tail_printedPoints (ring : IsolationRing (RingPath ℚ)) :
    (ring.geometry.points.drop 1).map (printedPoint origin) = (printedPoints origin ring).tail := by
  unfold printedPoints
  rw [← List.drop_one, List.map_drop]

/-- A pass that begins where the tool is. -/
theorem drawn_pass {d : Drawing} {q : ℚ × ℚ} {cur : List (ℚ × ℚ)} {z : ℚ}
    (h : DrawnAt (Hook.draw d (.linear (.onlyZ (z - origin.z)) job.plungeFeed)) q out cur)
    (hrun : RunTo q cur) {ring : IsolationRing (RingPath ℚ)} (pass : ℕ)
    (hpass : ¬(0 < pass ∧ CutRing.isClosed ring.geometry = false)) :
    ∃ q', DrawnAt ((emitPass job origin ring.geometry pass z).foldl Hook.draw d) q' out
        ((printedPoints origin ring).tail.foldl Polylines.extend cur)
      ∧ RunTo q' ((printedPoints origin ring).tail.foldl Polylines.extend cur) := by
  unfold emitPass
  rw [if_neg hpass, List.nil_append, List.foldl_cons, ← tail_printedPoints]
  exact drawn_cuts job origin h hrun (ring.geometry.points.drop 1)

/-- The passes along a closed ring extend the run. -/
theorem drawn_closed {ring : IsolationRing (RingPath ℚ)} (hclosed : ring.geometry.isClosed = true)
    {d : Drawing} {q : ℚ × ℚ} {cur : List (ℚ × ℚ)} (h : DrawnAt d q out cur) (hrun : RunTo q cur)
    (pass : ℕ) (depths : List ℚ) :
    ∃ q', DrawnAt ((emitPasses job origin ring.geometry pass depths).foldl Hook.draw d) q' out
      ((List.replicate depths.length (printedPoints origin ring).tail).flatten.foldl
        Polylines.extend cur) := by
  induction depths generalizing d q cur pass with
  | nil => exact ⟨q, h⟩
  | cons z depths ih =>
    obtain ⟨q', hpass, hrun'⟩ := drawn_pass job origin (h.plunge hrun (z - origin.z) job.plungeFeed)
      hrun pass fun hopen => absurd hclosed (ne_true_of_eq_false hopen.2)
    unfold emitPasses
    rw [List.foldl_append, List.length_cons, List.replicate_succ, List.flatten_cons,
      List.foldl_append]
    exact ih hpass hrun' (pass + 1)

/-- The tool goes to the start of a ring. -/
theorem drawn_start {d : Drawing} {q : ℚ × ℚ} (h : DrawnAt d q out [])
    (ring : IsolationRing (RingPath ℚ)) :
    DrawnAt (Hook.draw d (.rapid (ringStart ring.geometry origin)))
      (printedPoint origin ring.geometry.start) out [] :=
  h.rapid _ _

/-- A pass from the start of a ring. -/
theorem drawn_first {d : Drawing} {ring : IsolationRing (RingPath ℚ)}
    (h : DrawnAt d (printedPoint origin ring.geometry.start) out []) (z : ℚ) :
    ∃ q', DrawnAt ((emitRingSegments (CutRing.segments ring.geometry) job.cutFeed origin).foldl
        Hook.draw (Hook.draw d (.linear (.onlyZ (z - origin.z)) job.plungeFeed))) q' out
        ((printedPoints origin ring).tail.foldl Polylines.extend
          [printedPoint origin ring.geometry.start])
      ∧ RunTo q' ((printedPoints origin ring).tail.foldl Polylines.extend
          [printedPoint origin ring.geometry.start]) := by
  rw [← tail_printedPoints]
  exact drawn_cuts job origin (h.plunge_first (z - origin.z) job.plungeFeed) (runTo_concat [] _)
    (ring.geometry.points.drop 1)

/-- A run of two points is a line. -/
theorem endRun_of_le {cur : List (ℚ × ℚ)} (h : 2 ≤ cur.length) : endRun out cur = out ++ [cur] :=
  if_pos h

/-- The further passes along an open ring are lines of their own. -/
theorem drawn_open {ring : IsolationRing (RingPath ℚ)} (hopen : ring.geometry.isClosed = false)
    {line : List (ℚ × ℚ)} (hline : (printedPoints origin ring).tail.foldl Polylines.extend
      [printedPoint origin ring.geometry.start] = line) (hlength : 2 ≤ line.length)
    {d : Drawing} {q : ℚ × ℚ} {cur : List (ℚ × ℚ)} (h : DrawnAt d q out cur)
    {pass : ℕ} (hpass : 0 < pass) (depths : List ℚ) :
    ∃ q' out' cur', DrawnAt ((emitPasses job origin ring.geometry pass depths).foldl Hook.draw d)
        q' out' cur'
      ∧ endRun out' cur' = endRun out cur ++ List.replicate depths.length line := by
  induction depths generalizing d q out cur pass with
  | nil => exact ⟨q, out, cur, h, (List.append_nil _).symm⟩
  | cons z depths ih =>
    obtain ⟨q', hcut, -⟩ := drawn_first job origin
      (drawn_start origin (h.lift (job.travelZ - origin.z)) ring) z
    rw [hline] at hcut
    obtain ⟨q'', out', cur', hend, hlines⟩ := ih hcut (Nat.succ_pos pass)
    refine ⟨q'', out', cur', ?_, ?_⟩
    · unfold emitPasses emitPass
      rw [if_pos ⟨hpass, hopen⟩, List.foldl_append]
      exact hend
    · rw [hlines, endRun_of_le hlength, List.length_cons, List.replicate_succ,
        List.append_assoc, List.singleton_append]

/-- The points of a ring, as they are printed, begin with its start. -/
theorem printedPoints_eq (ring : IsolationRing (RingPath ℚ)) (h : ring.geometry.points ≠ []) :
    printedPoints origin ring
      = printedPoint origin ring.geometry.start :: (printedPoints origin ring).tail := by
  obtain ⟨⟨points⟩⟩ := ring
  cases points with
  | nil => exact absurd rfl h
  | cons p points => rfl

theorem onGrid_printedPoints {ring : IsolationRing (RingPath ℚ)} {p : ℚ × ℚ}
    (h : p ∈ printedPoints origin ring) : OnGrid p.1 ∧ OnGrid p.2 := by
  obtain ⟨point, -, rfl⟩ := List.mem_map.1 h
  exact ⟨onGrid_printed _, onGrid_printed _⟩

/-- A run from the start of a ring over points of it. -/
theorem run_printedPoints (ring : IsolationRing (RingPath ℚ)) {points : List (ℚ × ℚ)}
    (h : ∀ p ∈ points, p ∈ printedPoints origin ring) :
    points.foldl Polylines.extend [printedPoint origin ring.geometry.start]
      = (printedPoint origin ring.geometry.start :: points).destutter (· ≠ ·) :=
  @Polylines.foldl_extend ℚ _ _ _ [] _ _ ⟨onGrid_printed _, onGrid_printed _⟩ fun p hp =>
    onGrid_printedPoints origin (h p hp)

theorem length_le_foldl_extend (cur points : List (ℚ × ℚ)) :
    cur.length ≤ (points.foldl Polylines.extend cur).length := by
  induction points generalizing cur with
  | nil => exact le_rfl
  | cons p points ih =>
    refine le_trans ?_ (ih (Polylines.extend cur p))
    unfold Polylines.extend
    split
    · exact le_rfl
    · rw [List.length_append]
      exact Nat.le_add_right _ _

/-- **A ring is drawn as its lines.** -/
theorem drawn_ring {ring : IsolationRing (RingPath ℚ)} (hpoints : 2 ≤ ring.geometry.points.length)
    (hchain : (printedPoints origin ring).IsChain (· ≠ ·)) {d : Drawing} {q : ℚ × ℚ}
    (h : DrawnAt d q out []) :
    ∃ q', DrawnAt ((emitRing job origin ring).foldl Hook.draw d) q'
      (out ++ ringLines job origin ring) [] := by
  have hcons := printedPoints_eq origin ring (List.length_pos_iff.1 (by omega))
  have hline : (printedPoints origin ring).tail.foldl Polylines.extend
      [printedPoint origin ring.geometry.start] = printedPoints origin ring := by
    rw [run_printedPoints origin ring fun p => List.mem_of_mem_tail, ← hcons]
    exact List.destutter_of_isChain _ _ hchain
  have hlength : 2 ≤ (printedPoints origin ring).length := by
    unfold printedPoints
    rwa [List.length_map]
  obtain ⟨z, depths, hdepths⟩ := exists_depthSteps job
  have hcount : passCount job = depths.length + 1 := congrArg List.length hdepths
  obtain ⟨q', hfirst, hrun⟩ := drawn_first job origin (drawn_start origin h ring) z
  rw [hline] at hfirst hrun
  unfold emitRing ringLines
  rw [hdepths, hcount, Nat.add_sub_cancel]
  dsimp only
  by_cases hclosed : ring.geometry.isClosed = true
  · obtain ⟨q'', hend⟩ := drawn_closed job origin hclosed hfirst hrun 1 depths
    refine ⟨q'', ?_⟩
    have hlift := hend.lift (job.travelZ - origin.z)
    have hmem : ∀ p ∈ (printedPoints origin ring).tail
        ++ (List.replicate depths.length (printedPoints origin ring).tail).flatten,
        p ∈ printedPoints origin ring := by
      intro p hp
      rcases List.mem_append.1 hp with hp | hp
      · exact List.mem_of_mem_tail hp
      · obtain ⟨points, hpoints, hp⟩ := List.mem_flatten.1 hp
        rw [List.eq_of_mem_replicate hpoints] at hp
        exact List.mem_of_mem_tail hp
    have hall := run_printedPoints origin ring hmem
    rw [List.foldl_append, hline, ← List.cons_append, ← hcons] at hall
    rw [endRun_of_le (hlength.trans (length_le_foldl_extend _ _)), hall] at hlift
    rw [if_pos hclosed]
    unfold emitPasses emitPass
    rw [if_neg fun hpass => absurd hpass.1 (lt_irrefl 0), List.foldl_cons, List.foldl_append,
      List.foldl_append]
    exact hlift
  · have hopen : ring.geometry.isClosed = false := eq_false_of_ne_true hclosed
    obtain ⟨q'', out', cur', hend, hlines⟩ :=
      drawn_open job origin hopen hline hlength hfirst Nat.one_pos depths
    refine ⟨q'', ?_⟩
    have hlift := hend.lift (job.travelZ - origin.z)
    rw [hlines, endRun_of_le hlength, List.append_assoc, List.singleton_append,
      ← List.replicate_succ] at hlift
    rw [if_neg hclosed]
    unfold emitPasses emitPass
    rw [if_neg fun hpass => absurd hpass.1 (lt_irrefl 0), List.foldl_cons, List.foldl_append,
      List.foldl_append]
    exact hlift

end Ring

/-! ## The round trip -/

/-- The points of the rings are lines: two of them or more, of which no two neighbours are printed
alike. -/
def Drawable (toolpaths : IsolationToolpaths (RingPath ℚ)) (origin : Origin ℚ) : Prop :=
  ∀ ring ∈ toolpaths.rings, 2 ≤ ring.geometry.points.length
    ∧ (printedPoints origin ring).IsChain (· ≠ ·)

/-- The rings are drawn one after the other. -/
theorem drawn_rings (job : IsolationJob ℚ) (origin : Origin ℚ)
    {rings : List (IsolationRing (RingPath ℚ))} (hrings : Drawable ⟨rings⟩ origin) {d : Drawing}
    {q : ℚ × ℚ} {out : List (List (ℚ × ℚ))} (h : DrawnAt d q out []) :
    ∃ q', DrawnAt ((rings.flatMap (emitRing job origin)).foldl Hook.draw d) q'
      (out ++ rings.flatMap (ringLines job origin)) [] := by
  induction rings generalizing d q out with
  | nil => exact ⟨q, (List.append_nil out).symm ▸ h⟩
  | cons ring rings ih =>
    obtain ⟨hpoints, hchain⟩ := hrings ring (List.mem_cons_self ..)
    obtain ⟨q', hring⟩ := drawn_ring job origin hpoints hchain h
    obtain ⟨q'', hrest⟩ := ih (fun ring hmem => hrings ring (List.mem_cons_of_mem _ hmem)) hring
    rw [List.flatMap_cons, List.flatMap_cons, List.foldl_append, ← List.append_assoc]
    exact ⟨q'', hrest⟩

/-- The calls of an isolation job are no arcs. -/
theorem isStraight_emitIsolation (toolpaths : IsolationToolpaths (RingPath ℚ))
    (job : IsolationJob ℚ) (origin : Origin ℚ) (tool : Option (List Char)) :
    ∀ hook ∈ emitIsolation toolpaths job origin tool, hook.isStraight = true := by
  have hpass : ∀ (g : RingPath ℚ) (pass : ℕ) (z : ℚ), ∀ hook ∈ emitPass job origin g pass z,
      hook.isStraight = true := by
    intro g pass z
    unfold emitPass
    refine List.forall_mem_append.2 ⟨?_, List.forall_mem_cons.2 ⟨rfl, ?_⟩⟩
    · split
      · exact List.forall_mem_cons.2 ⟨rfl, List.forall_mem_singleton.2 rfl⟩
      · exact List.forall_mem_nil _
    · intro hook hmem
      obtain ⟨segment, hsegment, rfl⟩ := List.mem_map.1 hmem
      obtain ⟨p, -, rfl⟩ := List.mem_map.1 (show segment ∈ g.segments from hsegment)
      rfl
  have hpasses : ∀ (g : RingPath ℚ) (depths : List ℚ) (pass : ℕ),
      ∀ hook ∈ emitPasses job origin g pass depths, hook.isStraight = true := by
    intro g depths
    induction depths with
    | nil => exact fun _ => List.forall_mem_nil _
    | cons z depths ih =>
      exact fun pass => List.forall_mem_append.2 ⟨hpass g pass z, ih (pass + 1)⟩
  unfold emitIsolation
  refine List.forall_mem_cons.2 ⟨rfl, List.forall_mem_append.2 ⟨?_, List.forall_mem_singleton.2 rfl⟩⟩
  split
  · exact List.forall_mem_nil _
  · refine List.forall_mem_cons.2 ⟨rfl, List.forall_mem_cons.2 ⟨rfl, fun hook hmem => ?_⟩⟩
    obtain ⟨ring, -, hring⟩ := List.mem_flatMap.1 hmem
    rcases List.mem_cons.1 hring with rfl | hring
    · rfl
    · rcases List.mem_append.1 hring with hring | hring
      · exact hpasses ring.geometry _ 0 hook hring
      · obtain rfl := List.mem_singleton.1 hring
        rfl

/-- The lines of the program of an isolation job. -/
theorem cutPolylines_emit {toolpaths : IsolationToolpaths (RingPath ℚ)} {origin : Origin ℚ}
    (h : Drawable toolpaths origin) (job : IsolationJob ℚ) (tool : Option (List Char)) :
    ∃ preview, importGcode (GrblHal.post.emit (emitIsolation toolpaths job origin tool)).render
        = .ok preview
      ∧ preview.cutPolylines = toolpaths.rings.flatMap (ringLines job origin) := by
  obtain ⟨preview, himport, hmoves⟩ :=
    importGcode_emit (isStraight_emitIsolation toolpaths job origin tool)
  refine ⟨preview, himport, ?_⟩
  have hstart : DrawnAt (⟨0, 0, 0⟩, ⟨[], []⟩) (0, 0) [] [] := ⟨rfl, rfl⟩
  have hdrawn : ∃ q, DrawnAt ((emitIsolation toolpaths job origin tool).foldl Hook.draw
      (⟨0, 0, 0⟩, ⟨[], []⟩)) q (toolpaths.rings.flatMap (ringLines job origin)) [] := by
    obtain ⟨rings⟩ := toolpaths
    cases rings with
    | nil => exact ⟨_, hstart⟩
    | cons ring rings =>
      obtain ⟨q, hrings⟩ := drawn_rings job origin h (hstart.lift (job.travelZ - origin.z))
      refine ⟨q, ?_⟩
      unfold emitIsolation
      rw [List.foldl_cons, List.foldl_append]
      exact hrings
  obtain ⟨q, hend⟩ := hdrawn
  unfold GcodePreview.cutPolylines
  rw [hmoves, Hook.foldl_previews _ (⟨0, 0, 0⟩, ⟨[], []⟩), hend.lines]
  rfl

/-- **An isolation job comes back line by line.** For each ring in order, each point comes back
where it was printed: an open ring as one line for each of its passes, and a closed ring as a
single line, the points of all its passes. -/
theorem importGcode_emitIsolation {toolpaths : IsolationToolpaths (RingPath ℚ)}
    {origin : Origin ℚ} (h : Drawable toolpaths origin) (job : IsolationJob ℚ)
    (tool : Option (List Char)) :
    ∃ preview, importGcode (GrblHal.post.emit (emitIsolation toolpaths job origin tool)).render
        = .ok preview
      ∧ preview.cutPolylines = toolpaths.rings.flatMap (ringLines job origin) :=
  cutPolylines_emit h job tool

/-- A closed triangle and an open path beside it. -/
def twoRings : IsolationToolpaths (RingPath ℚ) :=
  ⟨[⟨⟨[⟨0, 0⟩, ⟨4, 0⟩, ⟨0, 3⟩, ⟨0, 0⟩]⟩⟩, ⟨⟨[⟨5, 0⟩, ⟨5, 1 / 3⟩, ⟨5, 3⟩]⟩⟩]⟩

/-- A job of two passes. -/
def twoPasses : IsolationJob ℚ := ⟨1 / 10, 1 / 20, 120, 60, 2, 10000, none⟩

theorem drawable_twoRings : Drawable twoRings .native := by
  unfold Drawable
  decide +kernel

theorem passCount_twoPasses : passCount twoPasses = 2 := by
  have hsteps : depthSteps (1 / 10 : ℚ) (1 / 20) = [-(1 / 20), -(1 / 10)] := by
    unfold depthSteps
    rw [dif_neg (by norm_num), depthLevels, dif_pos (by unfold depthTol; norm_num), depthLevels,
      dif_neg (by unfold depthTol; norm_num)]
  exact congrArg List.length hsteps

theorem ringLines_twoRings : twoRings.rings.flatMap (ringLines twoPasses .native)
    = [[(0, 0), (4, 0), (0, 3), (0, 0), (4, 0), (0, 3), (0, 0)],
      [(5, 0), (5, 3333 / 10000), (5, 3)], [(5, 0), (5, 3333 / 10000), (5, 3)]] := by
  have hlines : ringLines twoPasses .native = fun ring =>
      let points := printedPoints .native ring
      if ring.geometry.isClosed then
        [(points ++ (List.replicate (2 - 1) points.tail).flatten).destutter (· ≠ ·)]
      else List.replicate 2 points := by
    funext ring
    unfold ringLines
    rw [passCount_twoPasses]
  rw [hlines]
  decide +kernel

theorem importGcode_twoRings : ∃ preview : GcodePreview ℚ,
    importGcode (GrblHal.post.emit (emitIsolation twoRings twoPasses .native none)).render
        = .ok preview
      ∧ preview.cutPolylines = [[(0, 0), (4, 0), (0, 3), (0, 0), (4, 0), (0, 3), (0, 0)],
        [(5, 0), (5, 3333 / 10000), (5, 3)], [(5, 0), (5, 3333 / 10000), (5, 3)]] := by
  obtain ⟨preview, himport, hlines⟩ := importGcode_emitIsolation drawable_twoRings twoPasses none
  exact ⟨preview, himport, hlines.trans ringLines_twoRings⟩

/-- The two passes along the triangle are a single line. -/
theorem not_line_of_pass : ¬∀ (toolpaths : IsolationToolpaths (RingPath ℚ)) (job : IsolationJob ℚ)
    (origin : Origin ℚ) (tool : Option (List Char)), 0 < job.cutDepth → 0 < job.passDepth →
    0 < job.cutFeed → 0 < job.plungeFeed → 0 < job.travelZ → Drawable toolpaths origin →
    ∃ preview, importGcode (GrblHal.post.emit (emitIsolation toolpaths job origin tool)).render
        = .ok preview
      ∧ preview.cutPolylines = toolpaths.rings.flatMap fun ring =>
        (depthSteps job.cutDepth job.passDepth).map fun _ => printedPoints origin ring := by
  intro h
  obtain ⟨preview, himport, hpasses⟩ := h twoRings twoPasses .native none (by norm_num [twoPasses])
    (by norm_num [twoPasses]) (by norm_num [twoPasses]) (by norm_num [twoPasses])
    (by norm_num [twoPasses]) drawable_twoRings
  obtain ⟨preview', himport', hlines⟩ := cutPolylines_emit drawable_twoRings twoPasses none
  obtain rfl := Except.ok.inj (himport.symm.trans himport')
  have hlength := congrArg List.length (hpasses.symm.trans (hlines.trans ringLines_twoRings))
  simp only [List.length_flatMap, List.length_map] at hlength
  rw [show (depthSteps twoPasses.cutDepth twoPasses.passDepth).length = 2
    from passCount_twoPasses] at hlength
  exact absurd hlength (by decide)

end Galdr.Eitri
