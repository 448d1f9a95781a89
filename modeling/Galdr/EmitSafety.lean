import Galdr.ToolMotion

/-!
# The safety of an emitted program

A program is read back from the calls it is made of: a tool is moved by them from
wherever it is, and what it does is checked at every call. The heights are those
above the board: the datum that was subtracted is added again, and then nothing of
the program depends on it (`emitIsolation_shift`, `emitDrilling_shift`).

A rapid crosses the board at a safe height only, and goes below the surface only
where a feed has been deeper since the tool came there; the feeds are the passes of
the rings and the plunges of the holes and no others (`emit_safe`). A hole that is
pecked is drilled to its depth, or to a whole number of pecks that comes within a
nanometre of it (`not_drilled_through`).
-/

namespace Galdr.Eitri

variable {K : Type} [Field K]

/-! ## The datum -/

/-- Every absolute coordinate is moved by a vector. -/
def Axes.shift (v : Origin K) (axes : Axes K) : Axes K :=
  ⟨axes.x.map (· + v.x), axes.y.map (· + v.y), axes.z.map (· + v.z)⟩

/-- Every absolute coordinate is moved by a vector. -/
def Hook.shift (v : Origin K) : Hook K → Hook K
  | .rapid axes => .rapid (axes.shift v)
  | .linear axes feed => .linear (axes.shift v) feed
  | .arc move feed => .arc { move with x := move.x + v.x, y := move.y + v.y } feed
  | .startCode job => .startCode job
  | .endCode job => .endCode job
  | .dwell seconds => .dwell seconds
  | .spindleOn rpm => .spindleOn rpm
  | .toolChange tool => .toolChange tool

/-- The vector from one datum to another. -/
def Origin.to (o o' : Origin K) : Origin K := ⟨o.x - o'.x, o.y - o'.y, o.z - o'.z⟩

theorem Origin.to_native (o : Origin K) : o.to .native = o := by
  show (⟨o.x - 0, o.y - 0, o.z - 0⟩ : Origin K) = o
  rw [sub_zero, sub_zero, sub_zero]

section Shift

variable (o o' : Origin K)

@[simp] theorem shift_xy (x y : K) :
    (Axes.xy (x - o.x) (y - o.y)).shift (o.to o') = .xy (x - o'.x) (y - o'.y) := by
  simp [Axes.shift, Axes.xy, Origin.to]

@[simp] theorem shift_onlyZ (z : K) :
    (Axes.onlyZ (z - o.z)).shift (o.to o') = .onlyZ (z - o'.z) := by
  simp [Axes.shift, Axes.onlyZ, Origin.to]

@[simp] theorem shift_ringStart {G : Type} [CutRing K G] (g : G) :
    (ringStart g o).shift (o.to o') = ringStart g o' :=
  shift_xy o o' _ _

theorem emitSegment_shift (feed : K) (segment : Segment K) :
    (emitSegment feed o segment).shift (o.to o') = emitSegment feed o' segment := by
  cases segment with
  | line x y => exact congrArg (Hook.linear · feed) (shift_xy o o' x y)
  | arc x y offset dir => simp [emitSegment, Hook.shift, Origin.to]

@[simp] theorem emitRingSegments_shift (feed : K) (segments : List (Segment K)) :
    (emitRingSegments segments feed o).map (Hook.shift (o.to o'))
      = emitRingSegments segments feed o' := by
  unfold emitRingSegments
  rw [List.map_map]
  exact List.map_congr_left fun segment _ => emitSegment_shift o o' feed segment

@[simp] theorem emitDwell_shift (v : Origin K) (dwell : Option K) :
    (emitDwell dwell).map (Hook.shift v) = emitDwell dwell := by
  cases dwell <;> rfl

theorem emitPass_shift {G : Type} [CutRing K G] (job : IsolationJob K) (g : G) (pass : ℕ)
    (z : K) :
    (emitPass job o g pass z).map (Hook.shift (o.to o')) = emitPass job o' g pass z := by
  unfold emitPass
  rw [List.map_append, List.map_cons, emitRingSegments_shift]
  congr 1
  · split <;> simp [Hook.shift]
  · simp [Hook.shift]

@[simp] theorem emitPasses_shift {G : Type} [CutRing K G] (job : IsolationJob K) (g : G)
    (pass : ℕ) (depths : List K) :
    (emitPasses job o g pass depths).map (Hook.shift (o.to o'))
      = emitPasses job o' g pass depths := by
  induction depths generalizing pass with
  | nil => rfl
  | cons z depths ih =>
    show (emitPass job o g pass z ++ emitPasses job o g (pass + 1) depths).map _ = _
    rw [List.map_append, emitPass_shift, ih]
    rfl

@[simp] theorem plungeOnce_shift (params : DrillParams K) :
    (plungeOnce params o.z).map (Hook.shift (o.to o')) = plungeOnce params o'.z := by
  simp [plungeOnce, Hook.shift]

variable [LinearOrder K]

@[simp] theorem resumeRapid_shift (prev : K) :
    (resumeRapid o.z prev).map (Hook.shift (o.to o')) = resumeRapid o'.z prev := by
  unfold resumeRapid
  split <;> simp [Hook.shift]

variable [IsStrictOrderedRing K] [FloorRing K]

theorem emitRing_shift {G : Type} [CutRing K G] (job : IsolationJob K)
    (ring : IsolationRing G) :
    (emitRing job o ring).map (Hook.shift (o.to o')) = emitRing job o' ring := by
  simp [emitRing, Hook.shift]

/-- **A datum only translates** the program of an isolation job. -/
theorem emitIsolation_shift {G : Type} [CutRing K G] (toolpaths : IsolationToolpaths G)
    (job : IsolationJob K) (tool : Option (List Char)) :
    (emitIsolation toolpaths job o tool).map (Hook.shift (o.to o'))
      = emitIsolation toolpaths job o' tool := by
  have hrings : (toolpaths.rings.flatMap (emitRing job o)).map (Hook.shift (o.to o'))
      = toolpaths.rings.flatMap (emitRing job o') := by
    rw [List.map_flatMap]
    exact List.flatMap_congr fun ring _ => emitRing_shift o o' job ring
  unfold emitIsolation
  rw [List.map_cons, List.map_append]
  congr 2
  split
  · rfl
  · rw [List.map_cons, List.map_cons, hrings]
    simp [Hook.shift]

theorem peckCycle_shift (params : DrillParams K) {peck : K} (hpeck : 0 < peck) (prev : K) :
    (peckCycle params o.z peck hpeck prev).map (Hook.shift (o.to o'))
      = peckCycle params o'.z peck hpeck prev := by
  induction prev using peck_induction params hpeck with
  | last prev h =>
    rw [peckCycle_last h, peckCycle_last h]
    simp [Hook.shift]
  | more prev h ih =>
    rw [peckCycle_more h, peckCycle_more h, List.map_append, List.map_cons, List.map_cons, ih]
    simp [Hook.shift]

@[simp] theorem drillHole_shift (params : DrillParams K) :
    (drillHole params o.z).map (Hook.shift (o.to o')) = drillHole params o'.z := by
  unfold drillHole
  split
  · split
    · exact peckCycle_shift o o' params _ 0
    · exact plungeOnce_shift o o' params
  · exact plungeOnce_shift o o' params

theorem emitDrillMove_shift (params : DrillParams K) (move : DrillMove K) :
    (emitDrillMove params o move).map (Hook.shift (o.to o')) = emitDrillMove params o' move := by
  cases move with
  | drill center => simp [emitDrillMove, Hook.shift]
  | slot start dest => simp [emitDrillMove, routeSlot, Hook.shift]

theorem emitTool_shift (job : DrillJob K) (tool : ToolDrillPlan K) :
    (emitTool job o tool).map (Hook.shift (o.to o')) = emitTool job o' tool := by
  have hmoves : (tool.moves.flatMap (emitDrillMove tool.params o)).map (Hook.shift (o.to o'))
      = tool.moves.flatMap (emitDrillMove tool.params o') := by
    rw [List.map_flatMap]
    exact List.flatMap_congr fun move _ => emitDrillMove_shift o o' tool.params move
  unfold emitTool
  rw [List.map_cons, List.map_cons, List.map_cons, List.map_append, hmoves]
  simp [Hook.shift]

/-- **A datum only translates** the program of a drilling job. -/
theorem emitDrilling_shift (plan : DrillPlan K) (job : DrillJob K)
    (tool : Option (List Char)) :
    (emitDrilling plan job o tool).map (Hook.shift (o.to o'))
      = emitDrilling plan job o' tool := by
  have htools : (plan.tools.flatMap (emitTool job o)).map (Hook.shift (o.to o'))
      = plan.tools.flatMap (emitTool job o') := by
    rw [List.map_flatMap]
    exact List.flatMap_congr fun t _ => emitTool_shift o o' job t
  unfold emitDrilling
  rw [List.map_cons, List.map_append]
  congr 2
  split
  · rfl
  · rw [List.map_cons, htools]
    simp [Hook.shift]

end Shift

variable [LinearOrder K] [IsStrictOrderedRing K]

/-! ## The levels of a cut -/

/-- The heights of the passes, each with the one before it: a pass is deeper than the
last one, and no deeper than a step. -/
structure Levels (total step : K) (levels : List K) : Prop where
  /-- The passes go down, each by a step at most. -/
  chain : (0 :: levels).IsChain fun a b =>
    b < a ∧ (0 < step → step < total → a - b ≤ step + depthTol)
  /-- The last pass is at the full depth. -/
  last : levels.getLast? = some (-total)

section Levels

variable [FloorRing K] {total step : K}

theorem depthLevels_chain (hstep : 0 < step) (cut : K) (hcut : cut - step < total - depthTol) :
    ((-(cut - step)) :: depthLevels total step hstep cut).IsChain fun a b =>
      b < a ∧ (0 < step → step < total → a - b ≤ step + depthTol) := by
  have htol : (0 : K) < depthTol := depthTol_pos
  induction hn : ⌈(total - cut) / step⌉₊ using Nat.strong_induction_on generalizing cut with
  | _ n ih =>
    rw [depthLevels]
    split
    · rename_i h
      have hnext := ih _ (hn ▸ ceil_sub_add_lt hstep (h.trans_le (sub_le_self _ htol.le)))
        (cut + step) (by rwa [add_sub_cancel_right]) rfl
      rw [add_sub_cancel_right] at hnext
      exact .cons_cons ⟨by linarith, fun _ _ => by linarith⟩ hnext
    · rename_i h
      exact .cons_cons ⟨by linarith, fun _ _ => by linarith⟩ (.singleton _)

theorem getLast?_depthLevels (hstep : 0 < step) (cut : K) :
    (depthLevels total step hstep cut).getLast? = some (-total) := by
  induction hn : ⌈(total - cut) / step⌉₊ using Nat.strong_induction_on generalizing cut with
  | _ n ih =>
    rw [depthLevels]
    split
    · rename_i h
      have hlt : cut < total := h.trans_le (sub_le_self _ depthTol_pos.le)
      rw [List.getLast?_cons, ih _ (hn ▸ ceil_sub_add_lt hstep hlt) _ rfl]
      rfl
    · rfl

/-- The levels of a cut go down in steps to its depth. -/
theorem levels_depthSteps (htotal : 0 < total) : Levels total step (depthSteps total step) := by
  unfold depthSteps
  split
  · rename_i h
    refine ⟨.cons_cons ⟨neg_lt_zero.2 htotal, fun hpos hlt => ?_⟩ (.singleton _), rfl⟩
    exact absurd h (not_or.2 ⟨not_le.2 hpos, not_le.2 hlt⟩)
  · rename_i h
    have hstep : 0 < step := not_le.1 (not_or.1 h).1
    have hlt : step < total := not_le.1 (not_or.1 h).2
    refine ⟨?_, getLast?_depthLevels _ _⟩
    by_cases hfirst : step - step < total - depthTol
    · have hchain := depthLevels_chain hstep step hfirst
      rwa [sub_self, neg_zero] at hchain
    · -- the depth is within the tolerance: a single pass
      rw [depthLevels, dif_neg fun hcut => hfirst (by linarith)]
      exact .cons_cons ⟨by linarith, fun _ _ => by linarith⟩ (.singleton _)

end Levels

/-! ## Isolation -/

section Isolation

variable {G : Type} [CutRing K G]

/-- The cuts along a path at one height, from the point `p`. -/
def cutFeeds (z : K) : Point K → List (Segment K) → List (Feed K)
  | _, [] => []
  | p, segment :: rest => .cut p.x p.y z segment z :: cutFeeds z segment.dest rest

/-- Where a pass starts: an open path is gone back to. -/
def passStart (g : G) (pass : ℕ) : Point K :=
  if 0 < pass ∧ CutRing.isClosed g = true then CutRing.finish g else CutRing.start g

/-- A pass: the plunge, and the cut along the path. -/
def passFeeds (g : G) (pass : ℕ) (z : K) : List (Feed K) :=
  .plunge (passStart g pass).x (passStart g pass).y z
    :: cutFeeds z (passStart g pass) (CutRing.segments g)

/-- The passes along a ring, one at every level. -/
def ringFeeds (g : G) : ℕ → List K → List (Feed K)
  | _, [] => []
  | pass, z :: levels => passFeeds g pass z ++ ringFeeds g (pass + 1) levels

/-- Where the tool ends that cuts along a path. -/
def cutEnd (p : Point K) (segments : List (Segment K)) : Point K :=
  (segments.getLast?.map Segment.dest).getD p

omit [IsStrictOrderedRing K] in
theorem native_emitSegment (feed : K) (segment : Segment K) (t : Tool K) :
    t.feedOf (emitSegment feed .native segment) = [.cut t.x t.y t.z segment t.z]
      ∧ (t.step (emitSegment feed .native segment)).x = segment.dest.x
      ∧ (t.step (emitSegment feed .native segment)).y = segment.dest.y
      ∧ (t.step (emitSegment feed .native segment)).z = t.z := by
  cases segment with
  | line x y =>
    simp [emitSegment, Tool.feedOf, Tool.step, Tool.feed, Axes.xy, Origin.native, Segment.dest]
  | arc x y offset dir =>
    simp [emitSegment, Tool.feedOf, Tool.step, Tool.feed, Axes.xy, Origin.native, Segment.dest]

omit [IsStrictOrderedRing K] in
/-- The cuts along a path, as they are emitted. -/
theorem native_emitRingSegments (feed : K) (segments : List (Segment K)) (t : Tool K) :
    t.feeds (emitRingSegments segments feed .native) = cutFeeds t.z ⟨t.x, t.y⟩ segments
      ∧ (t.run (emitRingSegments segments feed .native)).x = (cutEnd ⟨t.x, t.y⟩ segments).x
      ∧ (t.run (emitRingSegments segments feed .native)).y = (cutEnd ⟨t.x, t.y⟩ segments).y
      ∧ (t.run (emitRingSegments segments feed .native)).z = t.z := by
  induction segments generalizing t with
  | nil => exact ⟨rfl, rfl, rfl, rfl⟩
  | cons segment segments ih =>
    obtain ⟨hfeed, hx, hy, hz⟩ := native_emitSegment feed segment t
    have hrest := ih (t.step (emitSegment feed .native segment))
    rw [hx, hy, hz] at hrest
    have hend : cutEnd segment.dest segments = cutEnd ⟨t.x, t.y⟩ (segment :: segments) := by
      unfold cutEnd
      rw [List.getLast?_cons]
      cases segments.getLast? <;> rfl
    rw [← hend]
    refine ⟨?_, hrest.2⟩
    show t.feedOf _ ++ Tool.feeds _ _ = _
    rw [hfeed]
    exact congrArg _ hrest.1

omit [IsStrictOrderedRing K] [LinearOrder K] [Field K] in
/-- A pass ends where the path does. -/
theorem cutEnd_passStart (g : G) (pass : ℕ) :
    cutEnd (passStart g pass) (CutRing.segments g) = CutRing.finish g := by
  unfold passStart CutRing.finish cutEnd
  cases (CutRing.segments g).getLast? <;> simp

omit [IsStrictOrderedRing K] in
theorem safeFrom_emitRingSegments {safe : K → Prop} {t : Tool K} (segments : List (Segment K))
    (feed : K) : SafeFrom safe t (emitRingSegments segments feed .native) := by
  refine safeFrom_of_forall_ne fun axes hmem => ?_
  obtain ⟨segment, -, heq⟩ := List.mem_map.1 hmem
  cases segment <;> cases heq

/-- The tool is where a pass needs it: an open path is gone back to by the pass. -/
def PassReady (g : G) (pass : ℕ) (t : Tool K) : Prop :=
  0 < pass ∧ CutRing.isClosed g = false ∨ (⟨t.x, t.y⟩ : Point K) = passStart g pass

omit [IsStrictOrderedRing K] in
/-- A pass, as it is emitted. -/
theorem native_emitPass {job : IsolationJob K} (htravel : 0 < job.travelZ) {g : G} {pass : ℕ}
    {t : Tool K} (hready : PassReady g pass t) (z : K) :
    SafeFrom (· = job.travelZ) t (emitPass job .native g pass z)
      ∧ t.feeds (emitPass job .native g pass z) = passFeeds g pass z
      ∧ PassReady g (pass + 1) (t.run (emitPass job .native g pass z)) := by
  unfold emitPass
  set back : List (Hook K) := if 0 < pass ∧ CutRing.isClosed g = false then
    [.rapid (.onlyZ (job.travelZ - Origin.native.z)), .rapid (ringStart g .native)] else [] with hback
  -- wherever the tool was, it is at the start of the pass now
  have hstart : SafeFrom (· = job.travelZ) t back ∧ t.feeds back = []
      ∧ (t.run back).x = (passStart g pass).x ∧ (t.run back).y = (passStart g pass).y := by
    rw [hback]
    split
    · rename_i h
      have hopen : passStart g pass = CutRing.start g := if_neg (by simp [h.2])
      rw [hopen]
      refine ⟨⟨rapidSafe_onlyZ ?_, rapidSafe_xy ?_ ?_, trivial⟩, rfl, ?_, ?_⟩
      · show (0 : K) ≤ job.travelZ - 0
        rw [sub_zero]
        exact htravel.le
      · exact sub_zero _
      · show (0 : K) ≤ job.travelZ - 0
        rw [sub_zero]
        exact htravel.le
      · exact sub_zero _
      · exact sub_zero _
    · rename_i h
      have hpos : (⟨t.x, t.y⟩ : Point K) = passStart g pass := hready.resolve_left h
      exact ⟨trivial, rfl, congrArg Point.x hpos, congrArg Point.y hpos⟩
  set t₁ := (t.run back).step (.linear (.onlyZ (z - Origin.native.z)) job.plungeFeed) with ht₁
  have hx : t₁.x = (passStart g pass).x := hstart.2.2.1
  have hy : t₁.y = (passStart g pass).y := hstart.2.2.2
  have hz : t₁.z = z := sub_zero z
  obtain ⟨hfeeds, hex, hey, -⟩ :=
    native_emitRingSegments job.cutFeed (CutRing.segments g) t₁
  rw [hx, hy, cutEnd_passStart] at hex hey
  refine ⟨safeFrom_append.2 ⟨hstart.1, ?_⟩, ?_, ?_⟩
  · show SafeFrom _ t₁ _
    exact safeFrom_emitRingSegments _ _
  · rw [Tool.feeds_append, hstart.2.1, List.nil_append, Tool.feeds_cons, ← ht₁, hfeeds, hx, hy, hz]
    show [Feed.plunge (t.run back).x (t.run back).y (z - 0)] ++ _ = _
    rw [hstart.2.2.1, hstart.2.2.2, sub_zero]
    rfl
  · rw [Tool.run_append, Tool.run_cons, ← ht₁]
    by_cases hclosed : CutRing.isClosed g = true
    · refine .inr ?_
      rw [hex, hey]
      exact (if_pos ⟨Nat.succ_pos pass, hclosed⟩).symm
    · exact .inl ⟨Nat.succ_pos pass, Bool.eq_false_of_not_eq_true hclosed⟩

omit [IsStrictOrderedRing K] in
/-- The passes along a ring, as they are emitted. -/
theorem native_emitPasses {job : IsolationJob K} (htravel : 0 < job.travelZ) {g : G} {pass : ℕ}
    {t : Tool K} (hready : PassReady g pass t) (levels : List K) :
    SafeFrom (· = job.travelZ) t (emitPasses job .native g pass levels)
      ∧ t.feeds (emitPasses job .native g pass levels) = ringFeeds g pass levels := by
  induction levels generalizing pass t with
  | nil => exact ⟨trivial, rfl⟩
  | cons z levels ih =>
    obtain ⟨hsafe, hfeeds, hnext⟩ := native_emitPass htravel hready z
    obtain ⟨hsafes, hrest⟩ := ih hnext
    refine ⟨safeFrom_append.2 ⟨hsafe, hsafes⟩, ?_⟩
    show t.feeds (_ ++ _) = passFeeds g pass z ++ ringFeeds g (pass + 1) levels
    rw [Tool.feeds_append, hfeeds, hrest]

variable [FloorRing K]

/-- A ring, as it is emitted: the tool comes to it and leaves it at the height of a
rapid. -/
theorem native_emitRing {job : IsolationJob K} (htravel : 0 < job.travelZ)
    (ring : IsolationRing G) {t : Tool K} (ht : t.z = job.travelZ) :
    SafeFrom (· = job.travelZ) t (emitRing job .native ring)
      ∧ t.feeds (emitRing job .native ring)
          = ringFeeds ring.geometry 0 (depthSteps job.cutDepth job.passDepth)
      ∧ (t.run (emitRing job .native ring)).z = job.travelZ := by
  have hready : PassReady ring.geometry 0 (t.rapid (ringStart ring.geometry .native)) := by
    refine .inr ?_
    show (⟨(CutRing.start ring.geometry).x - 0, (CutRing.start ring.geometry).y - 0⟩ : Point K)
      = CutRing.start ring.geometry
    rw [sub_zero, sub_zero]
  obtain ⟨hsafe, hfeeds⟩ :=
    native_emitPasses htravel hready (depthSteps job.cutDepth job.passDepth)
  refine ⟨⟨rapidSafe_xy ht (ht ▸ htravel.le), safeFrom_append.2 ⟨hsafe, ?_, trivial⟩⟩, ?_, ?_⟩
  · refine rapidSafe_onlyZ ?_
    show (0 : K) ≤ job.travelZ - 0
    rw [sub_zero]
    exact htravel.le
  · show Tool.feeds (t.rapid (ringStart ring.geometry .native)) (_ ++ _) = _
    rw [Tool.feeds_append, hfeeds]
    exact List.append_nil _
  · show (t.run (_ :: (_ ++ _))).z = _
    rw [Tool.run_cons, Tool.run_append]
    exact sub_zero _

theorem native_emitRings {job : IsolationJob K} (htravel : 0 < job.travelZ)
    (rings : List (IsolationRing G)) {t : Tool K} (ht : t.z = job.travelZ) :
    SafeFrom (· = job.travelZ) t (rings.flatMap (emitRing job .native))
      ∧ t.feeds (rings.flatMap (emitRing job .native))
          = rings.flatMap (fun ring =>
              ringFeeds ring.geometry 0 (depthSteps job.cutDepth job.passDepth))
      ∧ (t.run (rings.flatMap (emitRing job .native))).z = job.travelZ := by
  induction rings generalizing t with
  | nil => exact ⟨trivial, rfl, ht⟩
  | cons ring rings ih =>
    obtain ⟨hsafe, hfeeds, hz⟩ := native_emitRing htravel ring ht
    obtain ⟨hsafes, hrest, hend⟩ := ih hz
    rw [List.flatMap_cons, List.flatMap_cons, Tool.feeds_append, hfeeds, hrest, Tool.run_append]
    exact ⟨safeFrom_append.2 ⟨hsafe, hsafes⟩, rfl, hend⟩

/-- What an isolation program does, in heights above the board. -/
structure IsolationSafe (toolpaths : IsolationToolpaths G) (job : IsolationJob K) (t : Tool K)
    (hooks : List (Hook K)) : Prop where
  /-- Every rapid is safe. -/
  rapids : ∀ before axes after, hooks = before ++ .rapid axes :: after →
    RapidSafe (· = job.travelZ) (t.run before) axes
  /-- Every ring is cut once at every level, and nothing else is. -/
  feeds : t.feeds hooks = toolpaths.rings.flatMap fun ring =>
    ringFeeds ring.geometry 0 (depthSteps job.cutDepth job.passDepth)
  /-- The tool is lifted in the end, if it is moved at all. -/
  lifted : toolpaths.rings ≠ [] → (t.run hooks).z = job.travelZ

theorem native_emitIsolation (toolpaths : IsolationToolpaths G) {job : IsolationJob K}
    (htravel : 0 < job.travelZ) (tool : Option (List Char)) (t : Tool K) :
    IsolationSafe toolpaths job t (emitIsolation toolpaths job .native tool) := by
  by_cases hempty : toolpaths.rings = []
  · have hhooks : emitIsolation toolpaths job .native tool
        = [.startCode ⟨job.name, tool⟩, .endCode ⟨job.name, tool⟩] := by
      unfold emitIsolation
      rw [hempty]
      rfl
    rw [hhooks]
    refine ⟨fun before axes after heq => ?_, by rw [hempty]; rfl, fun hne => absurd hempty hne⟩
    have hsafe : SafeFrom (· = job.travelZ) t
        [.startCode ⟨job.name, tool⟩, .endCode ⟨job.name, tool⟩] := trivial
    exact hsafe.rapidSafe heq
  · have hhooks : emitIsolation toolpaths job .native tool
        = .startCode ⟨job.name, tool⟩ :: .spindleOn job.spindleRpm
          :: .rapid (.onlyZ (job.travelZ - 0))
          :: (toolpaths.rings.flatMap (emitRing job .native) ++ [.endCode ⟨job.name, tool⟩]) := by
      unfold emitIsolation
      rw [if_neg (by simpa using hempty)]
      rfl
    have ht : (t.rapid (.onlyZ (job.travelZ - 0))).z = job.travelZ := sub_zero _
    obtain ⟨hsafe, hfeeds, hz⟩ := native_emitRings htravel toolpaths.rings ht
    have hall : SafeFrom (· = job.travelZ) t (emitIsolation toolpaths job .native tool) := by
      rw [hhooks]
      exact ⟨rapidSafe_onlyZ (by rw [sub_zero]; exact htravel.le),
        safeFrom_append.2 ⟨hsafe, trivial⟩⟩
    refine ⟨fun before axes after heq => hall.rapidSafe heq, ?_, fun _ => ?_⟩
    · rw [hhooks]
      show Tool.feeds (t.rapid (.onlyZ (job.travelZ - 0))) (_ ++ _) = _
      rw [Tool.feeds_append, hfeeds]
      exact List.append_nil _
    · rw [hhooks]
      show (Tool.run _ (_ ++ _)).z = _
      rw [Tool.run_append]
      exact hz

end Isolation

/-! ## Drilling -/

section Drilling

/-- How deep a call plunges. -/
def plungeDepth : Hook K → Option K
  | .linear ⟨none, none, some z⟩ _ => some (-z)
  | _ => none

/-- A hole is drilled at the place of the tool: straight down to the depths of the
plunges, and out to the height of a rapid between the holes. -/
structure Drilled (safe : K → Prop) (params : DrillParams K) (t : Tool K)
    (hooks : List (Hook K)) : Prop where
  /-- Every rapid is safe. -/
  rapids : SafeFrom safe t hooks
  /-- The feeds are plunges at one place. -/
  feeds : t.feeds hooks = (hooks.filterMap plungeDepth).map fun d => .plunge t.x t.y (-d)
  /-- The tool is lifted in the end. -/
  lifted : (t.run hooks).z = params.retract

variable {safe : K → Prop} {params : DrillParams K} {t : Tool K} {peck prev : K}

omit [IsStrictOrderedRing K] in
/-- What follows the last plunge of a hole. -/
theorem drilled_exit (hretract : 0 < params.retract) :
    Drilled safe params t (emitDwell params.dwell ++ [.rapid (.onlyZ (params.retract - 0))]) := by
  have hlift : RapidSafe safe t (.onlyZ (params.retract - 0)) :=
    rapidSafe_onlyZ (by rw [sub_zero]; exact hretract.le)
  cases hdwell : params.dwell with
  | none => exact ⟨⟨hlift, trivial⟩, rfl, sub_zero _⟩
  | some seconds => exact ⟨⟨hlift, trivial⟩, rfl, sub_zero _⟩

omit [IsStrictOrderedRing K] in
/-- A plunge, and what a hole goes on with at its bottom. -/
theorem Drilled.plunge {z : K} {rest : List (Hook K)}
    (h : Drilled safe params (t.feed (.onlyZ z)) rest) :
    Drilled safe params t (.linear (.onlyZ z) params.feed :: rest) where
  rapids := h.rapids
  feeds := by
    show .plunge t.x t.y z :: Tool.feeds (t.feed (.onlyZ z)) rest = _
    rw [h.feeds]
    show _ = Feed.plunge t.x t.y (- -z) :: _
    rw [neg_neg]
    rfl
  lifted := h.lifted

omit [IsStrictOrderedRing K] in
/-- A rapid straight up or down, and what a hole goes on with. -/
theorem Drilled.rapid {z : K} {rest : List (Hook K)} (hsafe : RapidSafe safe t (.onlyZ z))
    (h : Drilled safe params (t.rapid (.onlyZ z)) rest) :
    Drilled safe params t (.rapid (.onlyZ z) :: rest) :=
  ⟨⟨hsafe, h.rapids⟩, h.feeds, h.lifted⟩

/-- A feed has been as deep as `prev`, here. -/
def Bored (t : Tool K) (prev : K) : Prop := 0 < prev → ∃ depth, t.bored = some depth ∧ depth ≤ -prev

omit [IsStrictOrderedRing K] in
theorem bored_feed (t : Tool K) (depth : K) : Bored (t.feed (.onlyZ (-depth - 0))) depth := by
  intro _
  rw [sub_zero]
  have hbored : (t.feed (.onlyZ (-depth))).bored
      = some (t.bored.elim (-depth) (min (-depth))) := if_pos ⟨rfl, rfl⟩
  refine ⟨_, hbored, ?_⟩
  cases t.bored with
  | none => exact le_rfl
  | some d => exact min_le_left _ _

omit [IsStrictOrderedRing K] in
theorem Bored.rapid {z : K} (h : Bored t prev) : Bored (t.rapid (.onlyZ z)) prev := by
  intro hprev
  obtain ⟨depth, hbored, hle⟩ := h hprev
  have hkeep : (t.rapid (.onlyZ z)).bored = t.bored := if_pos ⟨rfl, rfl⟩
  exact ⟨depth, hkeep.trans hbored, hle⟩

/-- The way back into a hole, and what it goes on with. -/
theorem Drilled.resume {rest : List (Hook K)} (hbored : Bored t prev)
    (h : ∀ t' : Tool K, Drilled safe params t' rest) :
    Drilled safe params t (resumeRapid 0 prev ++ rest) := by
  unfold resumeRapid
  split
  · rename_i hprev
    obtain ⟨depth, hdepth, hle⟩ := hbored hprev
    refine Drilled.rapid (rapidSafe_resume hdepth (hle.trans ?_)) (h _)
    -- the clearance keeps the rapid above the bottom of the last peck
    rw [sub_zero]
    have hclear : (0 : K) ≤ peckRapidClearance := by unfold peckRapidClearance; positivity
    exact le_min (by linarith) (by linarith)
  · exact h t

variable [FloorRing K]

theorem drilled_peckCycle (hretract : 0 < params.retract) (hpeck : 0 < peck)
    (hbored : Bored t prev) : Drilled safe params t (peckCycle params 0 peck hpeck prev) := by
  induction prev using peck_induction params hpeck generalizing t with
  | last prev h =>
    rw [peckCycle_last h]
    exact .resume hbored fun t' => .plunge (drilled_exit hretract)
  | more prev h ih =>
    rw [peckCycle_more h]
    refine .resume hbored fun t' => .plunge (.rapid ?_ ?_)
    · exact rapidSafe_onlyZ (by rw [sub_zero]; exact hretract.le)
    · exact ih (bored_feed t' _).rapid

/-- A peck that is not positive, or not less than the depth, is none. -/
theorem drillHole_of_not {zOff : K} (hsome : params.peck = some peck)
    (h : ¬(0 < peck ∧ peck < params.depth)) : drillHole params zOff = plungeOnce params zOff := by
  unfold drillHole
  rw [hsome]
  exact dif_neg h

theorem drilled_drillHole (hretract : 0 < params.retract) :
    Drilled safe params t (drillHole params 0) := by
  have honce : Drilled safe params t (plungeOnce params 0) := .plunge (drilled_exit hretract)
  unfold drillHole
  split
  · split
    · exact drilled_peckCycle hretract _ fun h => absurd h (lt_irrefl 0)
    · exact honce
  · exact honce

/-- The depths a hole is drilled to, one after the other. -/
def drillDepths (params : DrillParams K) : List K := (drillHole params 0).filterMap plungeDepth

/-- A whole number of pecks comes close to the depth of the hole, but not to it. -/
def PeckFallsShort (params : DrillParams K) : Prop :=
  ∃ peck, params.peck = some peck ∧ 0 < peck
    ∧ ∃ n : ℕ, params.depth - depthTol ≤ (n + 1 : K) * peck ∧ (n + 1 : K) * peck < params.depth

omit [FloorRing K] in
/-- The depths a hole is drilled to: each is deeper than the one before it, by a peck at
most, and the last is the depth of the hole, or falls short of it by a nanometre. -/
structure Reaches (params : DrillParams K) (depths : List K) : Prop where
  /-- The drill goes down, each time by a peck at most. -/
  chain : (0 :: depths).IsChain fun a b =>
    a < b ∧ ∀ peck, params.peck = some peck → 0 < peck → b - a ≤ peck
  /-- It goes no deeper than the hole. -/
  le : ∀ d ∈ depths, d ≤ params.depth
  /-- It ends at the bottom. -/
  last : ∃ d, depths.getLast? = some d ∧ params.depth - depthTol ≤ d
    ∧ (¬PeckFallsShort params → d = params.depth)

omit [LinearOrder K] [IsStrictOrderedRing K] [FloorRing K] in
theorem filterMap_exit (params : DrillParams K) :
    (emitDwell params.dwell ++ [Hook.rapid (.onlyZ (params.retract - 0))]).filterMap plungeDepth
      = [] := by
  cases params.dwell <;> rfl

omit [IsStrictOrderedRing K] [FloorRing K] in
theorem filterMap_plunge {prev d : K} {rest : List (Hook K)} :
    (resumeRapid 0 prev ++ .linear (.onlyZ (-d - 0)) params.feed :: rest).filterMap plungeDepth
      = d :: rest.filterMap plungeDepth := by
  have hresume : (resumeRapid 0 prev : List (Hook K)).filterMap plungeDepth = [] := by
    unfold resumeRapid
    split <;> rfl
  rw [List.filterMap_append, hresume]
  show -(-d - 0) :: _ = _
  rw [sub_zero, neg_neg]

/-- The depths of the pecks from the depth `prev`, a whole number of pecks. -/
theorem reaches_peckCycle (hpeck : 0 < peck) (hsome : params.peck = some peck) (n : ℕ)
    (hprev : prev = n * peck) (hlt : prev < params.depth) :
    (prev :: (peckCycle params 0 peck hpeck prev).filterMap plungeDepth).IsChain (fun a b =>
        a < b ∧ ∀ peck, params.peck = some peck → 0 < peck → b - a ≤ peck)
      ∧ (∀ d ∈ (peckCycle params 0 peck hpeck prev).filterMap plungeDepth, d ≤ params.depth)
      ∧ ∃ d, ((peckCycle params 0 peck hpeck prev).filterMap plungeDepth).getLast? = some d
        ∧ params.depth - depthTol ≤ d ∧ (¬PeckFallsShort params → d = params.depth) := by
  induction prev using peck_induction params hpeck generalizing n with
  | last prev h =>
    rw [peckCycle_last h, filterMap_plunge, filterMap_exit]
    refine ⟨.cons_cons ⟨lt_min (lt_add_of_pos_right prev hpeck) hlt, ?_⟩ (.singleton _), ?_,
      _, rfl, h, fun hshort => ?_⟩
    · rintro peck' hpeck' -
      obtain rfl : peck = peck' := Option.some.inj (hsome.symm.trans hpeck')
      exact sub_le_iff_le_add'.2 (min_le_left _ _)
    · rintro d hd
      rw [List.mem_singleton.1 hd]
      exact min_le_right _ _
    · refine min_eq_right (not_lt.1 fun hcut => hshort ⟨peck, hsome, hpeck, n, ?_, ?_⟩)
      · rw [min_eq_left hcut.le, hprev] at h
        linarith
      · rw [hprev] at hcut
        linarith
  | more prev h ih =>
    obtain ⟨-, hnext⟩ := target_eq h
    have hstep : prev + peck = ((n + 1 : ℕ) : K) * peck := by
      rw [hprev]
      push_cast
      ring
    obtain ⟨hchain, hle, d, hlast, hreach⟩ := ih (n + 1) hstep hnext
    rw [peckCycle_more h, filterMap_plunge]
    refine ⟨.cons_cons ⟨lt_add_of_pos_right prev hpeck, ?_⟩ hchain, ?_, d, ?_, hreach⟩
    · rintro peck' hpeck' -
      obtain rfl : peck = peck' := Option.some.inj (hsome.symm.trans hpeck')
      exact (add_sub_cancel_left _ _).le
    · rintro d' hd'
      rcases List.mem_cons.1 hd' with rfl | hmem
      · exact hnext.le
      · exact hle d' hmem
    · rw [List.getLast?_cons]
      show some ((List.filterMap plungeDepth (peckCycle params 0 peck hpeck _)).getLast?.getD _) = _
      rw [hlast]
      rfl

theorem reaches_drillDepths (hdepth : 0 < params.depth) : Reaches params (drillDepths params) := by
  have honce (hno : ∀ peck, params.peck = some peck → 0 < peck → params.depth ≤ peck) :
      Reaches params ((plungeOnce params 0).filterMap plungeDepth) := by
    have hdepths : (plungeOnce params 0).filterMap plungeDepth = [params.depth] := by
      show -(-params.depth - 0) :: List.filterMap plungeDepth (_ ++ _) = _
      rw [filterMap_exit, sub_zero, neg_neg]
    rw [hdepths]
    refine ⟨.cons_cons ⟨hdepth, fun peck hpeck hpos => ?_⟩ (.singleton _), ?_, params.depth, rfl,
      sub_le_self _ depthTol_pos.le, fun _ => rfl⟩
    · rw [sub_zero]
      exact hno peck hpeck hpos
    · exact fun d hd => (List.mem_singleton.1 hd).le
  unfold drillDepths drillHole
  split
  · rename_i peck hsome
    split
    · rename_i h
      have hpecks := reaches_peckCycle h.1 hsome 0 (show 0 = ((0 : ℕ) : K) * peck by simp) hdepth
      exact ⟨hpecks.1, hpecks.2.1, hpecks.2.2⟩
    · rename_i h
      refine honce fun peck' hpeck' hpos => ?_
      obtain rfl : peck = peck' := Option.some.inj (hsome.symm.trans hpeck')
      exact not_lt.1 fun hlt => h ⟨hpos, hlt⟩
  · rename_i hnone
    exact honce fun peck hpeck => absurd (hnone.symm.trans hpeck) (by simp)

/-- What is fed for a hole or a slot. -/
def moveFeeds (params : DrillParams K) : DrillMove K → List (Feed K)
  | .drill center => (drillDepths params).map fun d => .plunge center.x center.y (-d)
  | .slot start dest =>
    [.plunge start.x start.y (-params.depth),
      .cut start.x start.y (-params.depth) (.line dest.x dest.y) (-params.depth)]

/-- A height at which a tool may cross the board. -/
def CrossingHeight (job : DrillJob K) (params : DrillParams K) (z : K) : Prop :=
  z = job.travelZ ∨ z = params.retract

omit [IsStrictOrderedRing K] [FloorRing K] in
theorem CrossingHeight.nonneg {job : DrillJob K} (htravel : 0 < job.travelZ)
    (hretract : 0 < params.retract) {z : K} (h : CrossingHeight job params z) : 0 ≤ z := by
  rcases h with rfl | rfl
  · exact htravel.le
  · exact hretract.le

/-- A hole or a slot, as it is emitted. -/
theorem native_emitDrillMove {job : DrillJob K} (htravel : 0 < job.travelZ)
    (hretract : 0 < params.retract) (ht : CrossingHeight job params t.z) (move : DrillMove K) :
    SafeFrom (CrossingHeight job params) t (emitDrillMove params .native move)
      ∧ t.feeds (emitDrillMove params .native move) = moveFeeds params move
      ∧ CrossingHeight job params (t.run (emitDrillMove params .native move)).z := by
  have hz : 0 ≤ t.z := ht.nonneg htravel hretract
  cases move with
  | drill center =>
    have hhole : Drilled (CrossingHeight job params) params
        (t.rapid (.xy (center.x - 0) (center.y - 0))) (drillHole params 0) :=
      drilled_drillHole hretract
    refine ⟨⟨rapidSafe_xy ht hz, hhole.rapids⟩, ?_, .inr hhole.lifted⟩
    show Tool.feeds (t.rapid (.xy (center.x - 0) (center.y - 0))) (drillHole params 0) = _
    rw [hhole.feeds]
    show (drillDepths params).map (fun d => Feed.plunge (center.x - 0) (center.y - 0) (-d)) = _
    rw [sub_zero, sub_zero]
    rfl
  | slot start dest =>
    have hexit (t' : Tool K) : Drilled (CrossingHeight job params) params t'
        (emitDwell params.dwell ++ [.rapid (.onlyZ (params.retract - 0))]) :=
      drilled_exit hretract
    refine ⟨⟨rapidSafe_xy ht hz, (hexit _).rapids⟩, ?_, .inr (hexit _).lifted⟩
    show Feed.plunge (start.x - 0) (start.y - 0) (-params.depth - 0)
      :: Feed.cut (start.x - 0) (start.y - 0) (-params.depth - 0)
        (.line (dest.x - 0) (dest.y - 0)) (-params.depth - 0)
      :: Tool.feeds _ (emitDwell params.dwell ++ [.rapid (.onlyZ (params.retract - 0))]) = _
    rw [(hexit _).feeds, filterMap_exit]
    simp only [sub_zero]
    rfl

theorem native_emitDrillMoves {job : DrillJob K} (htravel : 0 < job.travelZ)
    (hretract : 0 < params.retract) (moves : List (DrillMove K))
    (ht : CrossingHeight job params t.z) :
    SafeFrom (CrossingHeight job params) t (moves.flatMap (emitDrillMove params .native))
      ∧ t.feeds (moves.flatMap (emitDrillMove params .native)) = moves.flatMap (moveFeeds params)
      ∧ CrossingHeight job params (t.run (moves.flatMap (emitDrillMove params .native))).z := by
  induction moves generalizing t with
  | nil => exact ⟨trivial, rfl, ht⟩
  | cons move moves ih =>
    obtain ⟨hsafe, hfeeds, hz⟩ := native_emitDrillMove htravel hretract ht move
    obtain ⟨hsafes, hrest, hend⟩ := ih hz
    rw [List.flatMap_cons, List.flatMap_cons, Tool.feeds_append, hfeeds, hrest, Tool.run_append]
    exact ⟨safeFrom_append.2 ⟨hsafe, hsafes⟩, rfl, hend⟩

/-- All that one tool drills, as it is emitted. -/
theorem native_emitTool {job : DrillJob K} (htravel : 0 < job.travelZ) (tool : ToolDrillPlan K)
    (hretract : 0 < tool.params.retract) (t : Tool K) :
    SafeFrom (CrossingHeight job tool.params) t (emitTool job .native tool)
      ∧ t.feeds (emitTool job .native tool) = tool.moves.flatMap (moveFeeds tool.params)
      ∧ (t.run (emitTool job .native tool)).z = job.travelZ := by
  have hlift (t' : Tool K) : RapidSafe (CrossingHeight job tool.params) t'
      (.onlyZ (job.travelZ - 0)) :=
    rapidSafe_onlyZ (by rw [sub_zero]; exact htravel.le)
  have ht : CrossingHeight job tool.params (t.rapid (.onlyZ (job.travelZ - 0))).z :=
    .inl (sub_zero _)
  obtain ⟨hsafe, hfeeds, -⟩ := native_emitDrillMoves htravel hretract tool.moves ht
  refine ⟨⟨hlift t, safeFrom_append.2 ⟨hsafe, hlift _, trivial⟩⟩, ?_, ?_⟩
  · show Tool.feeds (t.rapid (.onlyZ (job.travelZ - 0))) (_ ++ _) = _
    rw [Tool.feeds_append, hfeeds]
    exact List.append_nil _
  · show (Tool.run _ (_ ++ _)).z = _
    rw [Tool.run_append]
    exact sub_zero _

/-- A height at which some tool of a plan may cross the board. -/
def PlanHeight (plan : DrillPlan K) (job : DrillJob K) (z : K) : Prop :=
  z = job.travelZ ∨ ∃ tool ∈ plan.tools, z = tool.params.retract

/-- What a drilling program does, in heights above the board. -/
structure DrillingSafe (plan : DrillPlan K) (job : DrillJob K) (t : Tool K)
    (hooks : List (Hook K)) : Prop where
  /-- Every rapid is safe. -/
  rapids : ∀ before axes after, hooks = before ++ .rapid axes :: after →
    RapidSafe (PlanHeight plan job) (t.run before) axes
  /-- Every hole is drilled, every slot is cut, and nothing else is. -/
  feeds : t.feeds hooks = plan.tools.flatMap fun tool =>
    tool.moves.flatMap (moveFeeds tool.params)
  /-- The tool is lifted in the end, if it is moved at all. -/
  lifted : plan.tools ≠ [] → (t.run hooks).z = job.travelZ

theorem native_emitTools {job : DrillJob K} (htravel : 0 < job.travelZ) {safe : K → Prop}
    (tools : List (ToolDrillPlan K)) (hretract : ∀ tool ∈ tools, 0 < tool.params.retract)
    (hsafe : ∀ tool ∈ tools, ∀ z, CrossingHeight job tool.params z → safe z) (t : Tool K)
    (ht : t.z = job.travelZ) :
    SafeFrom safe t (tools.flatMap (emitTool job .native))
      ∧ t.feeds (tools.flatMap (emitTool job .native))
          = tools.flatMap (fun tool => tool.moves.flatMap (moveFeeds tool.params))
      ∧ (t.run (tools.flatMap (emitTool job .native))).z = job.travelZ := by
  induction tools generalizing t with
  | nil => exact ⟨trivial, rfl, ht⟩
  | cons tool tools ih =>
    obtain ⟨hfirst, hfeeds, hz⟩ :=
      native_emitTool htravel tool (hretract tool (List.mem_cons_self ..)) t
    obtain ⟨hsafes, hrest, hend⟩ := ih (fun tool' hmem => hretract tool' (List.mem_cons_of_mem _ hmem))
      (fun tool' hmem => hsafe tool' (List.mem_cons_of_mem _ hmem)) _ hz
    rw [List.flatMap_cons, List.flatMap_cons, Tool.feeds_append, hfeeds, hrest, Tool.run_append]
    exact ⟨safeFrom_append.2 ⟨hfirst.mono (hsafe tool (List.mem_cons_self ..)), hsafes⟩, rfl, hend⟩

theorem native_emitDrilling (plan : DrillPlan K) {job : DrillJob K} (htravel : 0 < job.travelZ)
    (hretract : ∀ tool ∈ plan.tools, 0 < tool.params.retract) (tool : Option (List Char))
    (t : Tool K) : DrillingSafe plan job t (emitDrilling plan job .native tool) := by
  by_cases hempty : plan.tools = []
  · have hhooks : emitDrilling plan job .native tool
        = [.startCode ⟨job.name, tool⟩, .endCode ⟨job.name, tool⟩] := by
      unfold emitDrilling
      rw [hempty]
      rfl
    rw [hhooks]
    refine ⟨fun before axes after heq => ?_, by rw [hempty]; rfl, fun hne => absurd hempty hne⟩
    have hsafe : SafeFrom (PlanHeight plan job) t
        [.startCode ⟨job.name, tool⟩, .endCode ⟨job.name, tool⟩] := trivial
    exact hsafe.rapidSafe heq
  · have hhooks : emitDrilling plan job .native tool
        = .startCode ⟨job.name, tool⟩ :: .rapid (.onlyZ (job.travelZ - 0))
          :: (plan.tools.flatMap (emitTool job .native) ++ [.endCode ⟨job.name, tool⟩]) := by
      unfold emitDrilling
      rw [if_neg (by simpa using hempty)]
      rfl
    have ht : (t.rapid (.onlyZ (job.travelZ - 0))).z = job.travelZ := sub_zero _
    have hheight : ∀ tool ∈ plan.tools, ∀ z, CrossingHeight job tool.params z →
        PlanHeight plan job z := fun tool hmem z hz =>
      hz.imp_right fun hz => ⟨tool, hmem, hz⟩
    obtain ⟨hsafe, hfeeds, hz⟩ := native_emitTools htravel plan.tools hretract hheight _ ht
    have hall : SafeFrom (PlanHeight plan job) t (emitDrilling plan job .native tool) := by
      rw [hhooks]
      exact ⟨rapidSafe_onlyZ (by rw [sub_zero]; exact htravel.le),
        safeFrom_append.2 ⟨hsafe, trivial⟩⟩
    refine ⟨fun before axes after heq => hall.rapidSafe heq, ?_, fun _ => ?_⟩
    · rw [hhooks]
      show Tool.feeds (t.rapid (.onlyZ (job.travelZ - 0))) (_ ++ _) = _
      rw [Tool.feeds_append, hfeeds]
      exact List.append_nil _
    · rw [hhooks]
      show (Tool.run _ (_ ++ _)).z = _
      rw [Tool.run_append]
      exact hz

end Drilling

/-! ## Emitted programs -/

section Emitted

variable [FloorRing K] {G : Type} [CutRing K G]

omit [LinearOrder K] [IsStrictOrderedRing K] [FloorRing K] in
/-- A pass along a closed ring starts where the one before it ended, which is where the
ring starts; the first pass and the passes along an open one start there. -/
theorem passStart_within [LinearOrder K] [IsStrictOrderedRing K] [LawfulCutRing K G] (g : G)
    (pass : ℕ) : (CutRing.start g).Within (passStart g pass) ringCloseEps := by
  unfold passStart
  split
  · rename_i h
    exact LawfulCutRing.within_of_isClosed g h.2
  · exact Point.within_self _ _

/-- **What an emitted program does.** In heights above the board, whatever the datum and
wherever the tool is to begin with: the rapids are safe, the feeds are the passes of the
rings at the levels of the cut, or the plunges of the holes, and the tool is lifted in the
end; another datum translates the program. -/
theorem emit_safe [LawfulCutRing K G] (origin : Origin K) (note : Option (List Char))
    (t : Tool K) :
    (∀ (toolpaths : IsolationToolpaths G) (job : IsolationJob K), 0 < job.travelZ →
        0 < job.cutDepth →
        IsolationSafe toolpaths job t
            ((emitIsolation toolpaths job origin note).map (Hook.shift origin))
          ∧ Levels job.cutDepth job.passDepth (depthSteps job.cutDepth job.passDepth)
          ∧ (∀ (g : G) (pass : ℕ), (CutRing.start g).Within (passStart g pass) ringCloseEps)
          ∧ ∀ origin', emitIsolation toolpaths job origin' note
              = (emitIsolation toolpaths job origin note).map (Hook.shift (origin.to origin')))
      ∧ ∀ (plan : DrillPlan K) (job : DrillJob K), 0 < job.travelZ →
        (∀ tool ∈ plan.tools, 0 < tool.params.retract ∧ 0 < tool.params.depth) →
        DrillingSafe plan job t ((emitDrilling plan job origin note).map (Hook.shift origin))
          ∧ (∀ tool ∈ plan.tools, Reaches tool.params (drillDepths tool.params))
          ∧ ∀ origin', emitDrilling plan job origin' note
              = (emitDrilling plan job origin note).map (Hook.shift (origin.to origin')) := by
  constructor
  · intro toolpaths job htravel hdepth
    have hnative := emitIsolation_shift origin .native toolpaths job note
    rw [Origin.to_native] at hnative
    rw [hnative]
    exact ⟨native_emitIsolation toolpaths htravel note t, levels_depthSteps hdepth,
      passStart_within, fun origin' => (emitIsolation_shift origin origin' _ _ _).symm⟩
  · intro plan job htravel hparams
    have hnative := emitDrilling_shift origin .native plan job note
    rw [Origin.to_native] at hnative
    rw [hnative]
    exact ⟨native_emitDrilling plan htravel (fun tool hmem => (hparams tool hmem).1) note t,
      fun tool hmem => reaches_drillDepths (hparams tool hmem).2,
      fun origin' => (emitDrilling_shift origin origin' _ _ _).symm⟩

end Emitted

/-! ## An isolation job and a drilling job -/

/-- The corners of a square. -/
def squareRing : IsolationToolpaths (RingPath ℚ) :=
  ⟨[⟨⟨[⟨0, 0⟩, ⟨10, 0⟩, ⟨10, 10⟩, ⟨0, 10⟩, ⟨0, 0⟩]⟩⟩]⟩

/-- An isolation job. -/
def isolationJob : IsolationJob ℚ := ⟨3 / 10, 1 / 10, 120, 60, 2, 10000, none⟩

/-- A drilling job. -/
def drillJob : DrillJob ℚ := ⟨3, 10000, none⟩

/-- One hole of the depth one, drilled with a peck. -/
def oneHole (peck : ℚ) : DrillPlan ℚ := ⟨[⟨1, 1, ⟨1, 100, 2, some peck, none⟩, [.drill ⟨0, 0⟩]⟩]⟩

/-- A tool, and how high it is. -/
def toolAt (z : ℚ) : Tool ℚ := ⟨0, 0, z, none⟩

theorem emit_safe_square :
    IsolationSafe squareRing isolationJob (toolAt 0)
        ((emitIsolation squareRing isolationJob ⟨5, 5, 0⟩ none).map (Hook.shift ⟨5, 5, 0⟩))
      ∧ DrillingSafe (oneHole (2 / 5)) drillJob (toolAt 0)
        ((emitDrilling (oneHole (2 / 5)) drillJob ⟨5, 5, 0⟩ none).map
          (Hook.shift ⟨5, 5, 0⟩)) := by
  have hsafe := emit_safe (G := RingPath ℚ) (⟨5, 5, 0⟩ : Origin ℚ) none (toolAt 0)
  have hparams : ∀ tool ∈ (oneHole (2 / 5)).tools, 0 < tool.params.retract ∧ 0 < tool.params.depth := by
    intro tool hmem
    rw [List.mem_singleton.1 hmem]
    exact ⟨by norm_num, by norm_num⟩
  exact ⟨(hsafe.1 squareRing isolationJob (by norm_num [isolationJob])
      (by norm_num [isolationJob])).1,
    (hsafe.2 (oneHole (2 / 5)) drillJob (by norm_num [drillJob]) hparams).1⟩

/-- A peck that comes within half a nanometre of the depth. -/
def nearPeck : ℚ := 1 - 1 / (2 * 10 ^ 9)

theorem drillDepths_nearPeck : drillDepths ⟨1, 100, 2, some nearPeck, none⟩ = [nearPeck] := by
  have hlast : (1 : ℚ) - depthTol ≤ min (0 + nearPeck) 1 := by norm_num [nearPeck, depthTol]
  show List.filterMap plungeDepth (dite (0 < nearPeck ∧ nearPeck < 1) _ _) = _
  rw [dif_pos ⟨by norm_num [nearPeck], by norm_num [nearPeck]⟩, peckCycle_last hlast,
    filterMap_plunge, zero_add, min_eq_left (by norm_num [nearPeck])]
  rfl

/-- **A hole is not always drilled through**: a peck that ends within a nanometre of the
bottom is the last one. A peck that is negative is none at all, and a job without rings
leaves the tool where it is. -/
theorem not_drilled_through :
    (toolAt 0).feeds (emitDrilling (oneHole nearPeck) drillJob .native none)
        = [.plunge 0 0 (-nearPeck)]
      ∧ nearPeck ≠ 1
      ∧ (toolAt 0).feeds (emitDrilling (oneHole (-1)) drillJob .native none)
        = [.plunge 0 0 (-1)]
      ∧ ((toolAt (-1)).run
          (emitIsolation (⟨[]⟩ : IsolationToolpaths (RingPath ℚ)) isolationJob .native none)).z
        = -1 := by
  have hretract (peck : ℚ) : ∀ tool ∈ (oneHole peck).tools, 0 < tool.params.retract := by
    intro tool hmem
    rw [List.mem_singleton.1 hmem]
    norm_num
  have htravel : (0 : ℚ) < drillJob.travelZ := by norm_num [drillJob]
  have hfeeds (peck : ℚ) := (native_emitDrilling (oneHole peck) htravel (hretract peck) none
    (toolAt 0)).feeds
  have hnegative : drillDepths (⟨1, 100, 2, some (-1), none⟩ : DrillParams ℚ) = [1] := by
    unfold drillDepths
    rw [drillHole_of_not rfl (by norm_num)]
    show [-((-1 : ℚ) - 0)] = [1]
    norm_num
  refine ⟨(hfeeds nearPeck).trans ?_, by norm_num [nearPeck], (hfeeds (-1)).trans ?_, rfl⟩
  · show (drillDepths _).map (fun d => Feed.plunge (0 : ℚ) 0 (-d)) ++ [] ++ [] = _
    rw [drillDepths_nearPeck]
    rfl
  · show (drillDepths _).map (fun d => Feed.plunge (0 : ℚ) 0 (-d)) ++ [] ++ [] = _
    rw [hnegative]
    rfl

end Galdr.Eitri
