import Galdr.CutRing

/-!
# From toolpaths to moves

The emitter walks the rings of an isolation job, or the holes and slots of a drill
plan, and calls a hook of the postprocessor for every move. The model of an emitted
program is the list of the calls.

Depths are positive magnitudes below the board's surface, which is at height zero; a
datum is subtracted from every absolute coordinate.
-/

namespace Galdr.Eitri

variable {K : Type} [Field K] [LinearOrder K]

/-! ## Hooks -/

/-- What the header of a program is made of. A text is its list of characters. -/
structure JobContext where
  /-- The name of the job. -/
  name : Option (List Char)
  /-- A note about the tool. -/
  tool : Option (List Char)
  deriving DecidableEq

/-- A tool, and its diameter for the comment. -/
structure ToolChange (K : Type) where
  /-- Its number. -/
  number : UInt32
  /-- Its diameter. -/
  diameter : K
  deriving DecidableEq

/-- The axis words of a move; an absent axis stays where it is. -/
structure Axes (K : Type) where
  /-- The first axis. -/
  x : Option K
  /-- The second axis. -/
  y : Option K
  /-- The third axis. -/
  z : Option K
  deriving DecidableEq

/-- A move in the plane. -/
def Axes.xy (x y : K) : Axes K := ⟨some x, some y, none⟩

/-- A plunge or a lift. -/
def Axes.onlyZ (z : K) : Axes K := ⟨none, none, some z⟩

/-- An arc in the plane. -/
structure ArcMove (K : Type) where
  /-- Its end. -/
  x : K
  /-- Its end. -/
  y : K
  /-- Its centre, from its start. -/
  offset : ArcOffset K
  /-- Its turning sense. -/
  dir : ArcDir
  deriving DecidableEq

/-- A call of the postprocessor. -/
inductive Hook (K : Type)
  | startCode (job : JobContext)
  | endCode (job : JobContext)
  | rapid (axes : Axes K)
  | linear (axes : Axes K) (feed : K)
  | arc (arc : ArcMove K) (feed : K)
  | dwell (seconds : K)
  | spindleOn (rpm : K)
  | toolChange (tool : ToolChange K)
  deriving DecidableEq

/-! ## Jobs -/

/-- The cutting parameters of an isolation job. -/
structure IsolationJob (K : Type) where
  /-- The depth of the cut. -/
  cutDepth : K
  /-- The greatest depth of one pass. -/
  passDepth : K
  /-- The feed of a cut. -/
  cutFeed : K
  /-- The feed of a plunge. -/
  plungeFeed : K
  /-- The height of a rapid. -/
  travelZ : K
  /-- The spindle speed. -/
  spindleRpm : K
  /-- The name of the job. -/
  name : Option (List Char)
  deriving DecidableEq

/-- A ring of an isolation job. -/
structure IsolationRing (G : Type) where
  /-- The path. -/
  geometry : G
  deriving DecidableEq

/-- The rings of an isolation job. -/
structure IsolationToolpaths (G : Type) where
  /-- They are cut in this order. -/
  rings : List (IsolationRing G)
  deriving DecidableEq

/-- The parameters of a drilling job that all tools share. -/
structure DrillJob (K : Type) where
  /-- The height of a rapid between the tools. -/
  travelZ : K
  /-- The spindle speed. -/
  spindleRpm : K
  /-- The name of the job. -/
  name : Option (List Char)
  deriving DecidableEq

/-- The parameters of a drill. -/
structure DrillParams (K : Type) where
  /-- The depth of the hole. -/
  depth : K
  /-- The feed of a plunge. -/
  feed : K
  /-- The height of a rapid between the holes. -/
  retract : K
  /-- The depth of one peck. -/
  peck : Option K
  /-- How long the drill dwells at the bottom. -/
  dwell : Option K
  deriving DecidableEq

/-- A hole or a slot. -/
inductive DrillMove (K : Type)
  /-- A hole. -/
  | drill (center : Point K)
  /-- A slot from one point to another. -/
  | slot (start dest : Point K)
  deriving DecidableEq

/-- What one tool drills. -/
structure ToolDrillPlan (K : Type) where
  /-- The number of the tool. -/
  tool : UInt32
  /-- Its diameter. -/
  diameter : K
  /-- Its parameters. -/
  params : DrillParams K
  /-- Its holes and slots, in order. -/
  moves : List (DrillMove K)
  deriving DecidableEq

/-- A drilling job. -/
structure DrillPlan (K : Type) where
  /-- The tools, in order. -/
  tools : List (ToolDrillPlan K)
  deriving DecidableEq

/-- The point that becomes the zero of the program. -/
structure Origin (K : Type) where
  /-- Its first coordinate. -/
  x : K
  /-- Its second coordinate. -/
  y : K
  /-- Its height above the surface. -/
  z : K
  deriving DecidableEq

/-- Nothing is shifted. -/
def Origin.native : Origin K := ⟨0, 0, 0⟩

/-! ## The depths of the passes -/

/-- How far below a depth that counts as reached a loop may end. -/
def depthTol : K := 1 / 10 ^ 9

theorem depthTol_pos [IsStrictOrderedRing K] : (0 : K) < depthTol := by
  unfold depthTol
  positivity

/-- What is left to cut is one step less after a step. -/
theorem ceil_sub_add_lt [IsStrictOrderedRing K] [FloorRing K] {total step cut : K}
    (hstep : 0 < step) (hcut : cut < total) :
    ⌈(total - (cut + step)) / step⌉₊ < ⌈(total - cut) / step⌉₊ := by
  have hsub : (total - (cut + step)) / step = (total - cut) / step - 1 := by
    field_simp
    ring
  rw [hsub, Nat.ceil_sub_one]
  exact Nat.sub_lt (Nat.ceil_pos.2 (div_pos (sub_pos.2 hcut) hstep)) Nat.one_pos

/-- The loop of `depthSteps`, from the depth `cut`. -/
def depthLevels [IsStrictOrderedRing K] [FloorRing K] (total step : K) (hstep : 0 < step)
    (cut : K) : List K :=
  if _h : cut < total - depthTol then -cut :: depthLevels total step hstep (cut + step)
  else [-total]
termination_by ⌈(total - cut) / step⌉₊
decreasing_by
  exact ceil_sub_add_lt hstep (_h.trans_le (sub_le_self _ depthTol_pos.le))

/-- The heights of the passes that cut the depth `total` in steps no deeper than
`step`. -/
def depthSteps [IsStrictOrderedRing K] [FloorRing K] (total step : K) : List K :=
  if h : step ≤ 0 ∨ total ≤ step then [-total]
  else depthLevels total step (not_le.1 (not_or.1 h).1) step

/-! ## Isolation -/

/-- The cut along a segment. -/
def emitSegment (feed : K) (origin : Origin K) : Segment K → Hook K
  | .line x y => .linear (.xy (x - origin.x) (y - origin.y)) feed
  | .arc x y offset dir => .arc ⟨x - origin.x, y - origin.y, offset, dir⟩ feed

/-- The cuts along a path. -/
def emitRingSegments (segments : List (Segment K)) (feed : K) (origin : Origin K) :
    List (Hook K) :=
  segments.map (emitSegment feed origin)

section Isolation

variable [IsStrictOrderedRing K] [FloorRing K] {G : Type} [CutRing K G]

/-- The start of a ring, in the coordinates of the program. -/
def ringStart (g : G) (origin : Origin K) : Axes K :=
  .xy ((CutRing.start g).x - origin.x) ((CutRing.start g).y - origin.y)

/-- One pass along a ring. -/
def emitPass (job : IsolationJob K) (origin : Origin K) (g : G) (pass : ℕ) (z : K) :
    List (Hook K) :=
  -- an open path has to be gone back to above the board; a closed one ends at its start
  (if 0 < pass ∧ CutRing.isClosed g = false then
    [.rapid (.onlyZ (job.travelZ - origin.z)), .rapid (ringStart g origin)]
  else [])
    ++ .linear (.onlyZ (z - origin.z)) job.plungeFeed
    :: emitRingSegments (CutRing.segments g) job.cutFeed origin

/-- The passes along a ring, from the pass `pass`. -/
def emitPasses (job : IsolationJob K) (origin : Origin K) (g : G) :
    ℕ → List K → List (Hook K)
  | _, [] => []
  | pass, z :: depths =>
    emitPass job origin g pass z ++ emitPasses job origin g (pass + 1) depths

/-- All of a ring. -/
def emitRing (job : IsolationJob K) (origin : Origin K) (ring : IsolationRing G) :
    List (Hook K) :=
  .rapid (ringStart ring.geometry origin)
    :: (emitPasses job origin ring.geometry 0 (depthSteps job.cutDepth job.passDepth)
      ++ [.rapid (.onlyZ (job.travelZ - origin.z))])

/-- The program of an isolation job. -/
def emitIsolation (toolpaths : IsolationToolpaths G) (job : IsolationJob K)
    (origin : Origin K) (tool : Option (List Char)) : List (Hook K) :=
  let ctx : JobContext := ⟨job.name, tool⟩
  .startCode ctx
    :: ((if toolpaths.rings.isEmpty then []
      else
        .spindleOn job.spindleRpm :: .rapid (.onlyZ (job.travelZ - origin.z))
          :: toolpaths.rings.flatMap (emitRing job origin))
      ++ [.endCode ctx])

end Isolation

/-! ## Drilling -/

/-- How far above the last peck a rapid may come down to. -/
def peckRapidClearance : K := 1 / 10

/-- The call that a dwell asks for. -/
def emitDwell (dwell : Option K) : List (Hook K) :=
  match dwell with
  | some seconds => [.dwell seconds]
  | none => []

/-- The loop of the pecks, from the depth `prev`. -/
def peckCycle [IsStrictOrderedRing K] [FloorRing K] (params : DrillParams K) (zOff peck : K)
    (hpeck : 0 < peck) (prev : K) : List (Hook K) :=
  let target := min (prev + peck) params.depth
  (if 0 < prev then
    -- no higher than the surface, where the peck is smaller than the clearance
    [.rapid (.onlyZ (min (-(prev - peckRapidClearance)) 0 - zOff))]
  else [])
    ++ .linear (.onlyZ (-target - zOff)) params.feed
    :: (if _h : params.depth - depthTol ≤ target then
        emitDwell params.dwell ++ [.rapid (.onlyZ (params.retract - zOff))]
      else
        .rapid (.onlyZ (params.retract - zOff)) :: peckCycle params zOff peck hpeck target)
termination_by ⌈(params.depth - prev) / peck⌉₊
decreasing_by
  have hlt : prev + peck < params.depth := by
    by_contra hle
    have htarget : target = params.depth := min_eq_right (not_lt.1 hle)
    exact _h (htarget ▸ sub_le_self _ depthTol_pos.le)
  -- the peck after this one starts from `prev + peck`
  show ⌈(params.depth - min (prev + peck) params.depth) / peck⌉₊ < _
  rw [min_eq_left hlt.le]
  exact ceil_sub_add_lt hpeck ((lt_add_of_pos_right prev hpeck).trans hlt)

section Peck

variable [IsStrictOrderedRing K] [FloorRing K] {params : DrillParams K} {zOff peck : K}
  {hpeck : 0 < peck} {prev : K}

omit [FloorRing K] in
/-- A peck that is not the last one ends short of the depth. -/
theorem target_eq (h : ¬params.depth - depthTol ≤ min (prev + peck) params.depth) :
    min (prev + peck) params.depth = prev + peck ∧ prev + peck < params.depth := by
  have hlt : prev + peck < params.depth := by
    by_contra hle
    rw [min_eq_right (not_lt.1 hle)] at h
    exact h (sub_le_self _ depthTol_pos.le)
  exact ⟨min_eq_left hlt.le, hlt⟩

/-- The way back down to the last peck. -/
def resumeRapid (zOff prev : K) : List (Hook K) :=
  if 0 < prev then [.rapid (.onlyZ (min (-(prev - peckRapidClearance)) 0 - zOff))] else []

/-- The calls of the last peck. -/
theorem peckCycle_last (h : params.depth - depthTol ≤ min (prev + peck) params.depth) :
    peckCycle params zOff peck hpeck prev
      = resumeRapid zOff prev
        ++ .linear (.onlyZ (-min (prev + peck) params.depth - zOff)) params.feed
        :: (emitDwell params.dwell ++ [.rapid (.onlyZ (params.retract - zOff))]) := by
  rw [peckCycle]
  show _ ++ _ :: dite _ _ _ = _
  rw [dif_pos h]
  rfl

/-- The calls of a peck before the last one. -/
theorem peckCycle_more (h : ¬params.depth - depthTol ≤ min (prev + peck) params.depth) :
    peckCycle params zOff peck hpeck prev
      = resumeRapid zOff prev
        ++ .linear (.onlyZ (-(prev + peck) - zOff)) params.feed
        :: .rapid (.onlyZ (params.retract - zOff))
        :: peckCycle params zOff peck hpeck (prev + peck) := by
  rw [peckCycle]
  show _ ++ _ :: dite _ _ _ = _
  rw [dif_neg h, (target_eq h).1]
  rfl

/-- Induction along the pecks: what holds at the last one, and at a peck where it holds
at the next, holds at all. -/
theorem peck_induction (params : DrillParams K) (hpeck : 0 < peck) {motive : K → Prop}
    (last : ∀ prev, params.depth - depthTol ≤ min (prev + peck) params.depth → motive prev)
    (more : ∀ prev, ¬params.depth - depthTol ≤ min (prev + peck) params.depth →
      motive (prev + peck) → motive prev) (prev : K) : motive prev := by
  induction hn : ⌈(params.depth - prev) / peck⌉₊ using Nat.strong_induction_on
    generalizing prev with
  | _ n ih =>
    by_cases h : params.depth - depthTol ≤ min (prev + peck) params.depth
    · exact last prev h
    · refine more prev h (ih _ ?_ _ rfl)
      rw [← hn]
      exact ceil_sub_add_lt hpeck
        ((lt_add_of_pos_right prev hpeck).trans (target_eq h).2)

end Peck

/-- A single plunge. -/
def plungeOnce (params : DrillParams K) (zOff : K) : List (Hook K) :=
  .linear (.onlyZ (-params.depth - zOff)) params.feed
    :: (emitDwell params.dwell ++ [.rapid (.onlyZ (params.retract - zOff))])

section Drilling

variable [IsStrictOrderedRing K] [FloorRing K]

/-- A hole at the place of the tool: one plunge, or a cycle of pecks. -/
def drillHole (params : DrillParams K) (zOff : K) : List (Hook K) :=
  match params.peck with
  | some peck =>
    if h : 0 < peck ∧ peck < params.depth then peckCycle params zOff peck h.1 0
    else plungeOnce params zOff
  | none => plungeOnce params zOff

/-- A slot from the place of the tool. -/
def routeSlot (x y : K) (params : DrillParams K) (zOff : K) : List (Hook K) :=
  .linear (.onlyZ (-params.depth - zOff)) params.feed :: .linear (.xy x y) params.feed
    :: (emitDwell params.dwell ++ [.rapid (.onlyZ (params.retract - zOff))])

/-- A hole or a slot. -/
def emitDrillMove (params : DrillParams K) (origin : Origin K) : DrillMove K → List (Hook K)
  | .drill p => .rapid (.xy (p.x - origin.x) (p.y - origin.y)) :: drillHole params origin.z
  | .slot p q =>
    .rapid (.xy (p.x - origin.x) (p.y - origin.y))
      :: routeSlot (q.x - origin.x) (q.y - origin.y) params origin.z

/-- All that one tool drills. -/
def emitTool (job : DrillJob K) (origin : Origin K) (tool : ToolDrillPlan K) :
    List (Hook K) :=
  .toolChange ⟨tool.tool, tool.diameter⟩ :: .spindleOn job.spindleRpm
    :: .rapid (.onlyZ (job.travelZ - origin.z))
    :: (tool.moves.flatMap (emitDrillMove tool.params origin)
      ++ [.rapid (.onlyZ (job.travelZ - origin.z))])

/-- The program of a drilling job. -/
def emitDrilling (plan : DrillPlan K) (job : DrillJob K) (origin : Origin K)
    (tool : Option (List Char)) : List (Hook K) :=
  let ctx : JobContext := ⟨job.name, tool⟩
  .startCode ctx
    :: ((if plan.tools.isEmpty then []
      else
        .rapid (.onlyZ (job.travelZ - origin.z))
          :: plan.tools.flatMap (emitTool job origin))
      ++ [.endCode ctx])

end Drilling

end Galdr.Eitri
