import Galdr.LibmReal
import Galdr.PlannerPositions

/-!
# Soft limits

A command planned under a travel envelope is rejected when its target leaves
the envelope by more than one step. A line, a rapid, a jog and a recall go
straight to the targets that were checked, so that every block they append ends
inside the envelope, give or take that step. An arc is checked at its end only.
Its chords stay inside on the axes outside its plane, along which they advance
from the start to the end, also those that are fed later
(`planned_in_envelope`). In its plane they are not checked, and an arc between
two points of the envelope may bulge out of it (`arc_leaves_envelope`).
-/

namespace Galdr

variable {K : Type} [Field K] [LinearOrder K]

/-- Where each block of a list ends, from a start. -/
def blockEnds : Axes Int32 → List (Block K) → List (Axes Int32)
  | _, [] => []
  | start, block :: rest =>
    let stop : Axes Int32 := fun axis => start axis + block.steps axis
    stop :: blockEnds stop rest

omit [LinearOrder K] in
theorem blockEnds_core {q r : List (Block K)}
    (h : q.map (Block.withEntry · 0) = r.map (Block.withEntry · 0))
    (start : Axes Int32) : blockEnds start q = blockEnds start r := by
  have hcore : ∀ (l : List (Block K)) (start : Axes Int32),
      blockEnds start l = blockEnds start (l.map (Block.withEntry · 0)) := by
    intro l
    induction l with
    | nil => exact fun _ => rfl
    | cons block rest ih =>
      intro start
      show _ :: _ = _ :: _
      rw [ih]
      rfl
  rw [hcore q, hcore r, h]

namespace Planner

/-- The ends of the blocks that are in `q` but not yet in `p`. -/
def enqueuedEnds (p q : Planner K) : List (Axes Int32) :=
  blockEnds p.positionSteps (q.blocks.drop p.blocks.length)

variable [FloorRing K]

/-- A step count is within the travel of an axis, give or take one step at each
end. A rotary axis has no bounds. -/
def InTravel (config : PlannerConfig K) (limits : SoftLimits K) (axis : Fin 4)
    (steps : Int32) : Prop :=
  config.isRotary axis = false →
    (travelSteps config.stepsPerMm limits.maxTravelMm axis).toInt - 1 ≤ steps.toInt
      ∧ steps.toInt ≤ 1

/-- A position is within the travel of every axis. -/
def InEnvelope (config : PlannerConfig K) (limits : SoftLimits K)
    (pos : Axes Int32) : Prop :=
  ∀ axis, InTravel config limits axis (pos axis)

/-- A position is within the travel of every axis outside a plane. -/
def InEnvelopeOutside (config : PlannerConfig K) (limits : SoftLimits K)
    (plane : PlaneAxes) (pos : Axes Int32) : Prop :=
  ∀ axis, axis ≠ plane.p0 → axis ≠ plane.p1 → InTravel config limits axis (pos axis)

/-- **What the check lets through is in the envelope.** A bound that has saturated
lets nothing through. -/
theorem inEnvelope_of_not_violation {config : PlannerConfig K} {limits : SoftLimits K}
    {target : Axes Int32}
    (h : softLimitViolation target config.stepsPerMm limits.maxTravelMm
      config.rotaryMask = false) : InEnvelope config limits target := by
  intro axis hbounded
  unfold PlannerConfig.isRotary at hbounded
  have haxis : axisViolation target config.stepsPerMm limits.maxTravelMm
      config.rotaryMask axis = false := by
    have hall := List.any_eq_false.1 h axis (List.mem_finRange axis)
    simpa using hall
  set lower := travelSteps config.stepsPerMm limits.maxTravelMm axis with hlower
  simp only [axisViolation, hbounded, Bool.not_false, Bool.true_and, Bool.or_eq_false_iff,
    decide_eq_false_iff_not, ← hlower] at haxis
  obtain ⟨hlow, hhigh⟩ := haxis
  have hone : (1 : Int32).toInt = 1 := rfl
  have hup : (target axis).toInt ≤ 1 := by
    rw [Int32.lt_iff_toInt_lt, hone] at hhigh
    omega
  refine ⟨?_, hup⟩
  by_cases hfits : SubFits lower 1
  · rw [Int32.lt_iff_toInt_lt, toInt_sub_of_fits hfits, hone] at hlow
    omega
  · -- The bound wraps only from the least value, to the greatest.
    have hrange := fits_toInt lower
    unfold SubFits FitsI32 i32Min i32Max at hfits
    unfold FitsI32 i32Min i32Max at hrange
    have hmin : lower = -2147483648 := by
      apply Int32.toInt_inj.1
      show lower.toInt = -2147483648
      omega
    have hmax : (lower - 1).toInt = 2147483647 := by
      rw [hmin]
      rfl
    rw [Int32.lt_iff_toInt_lt, hmax] at hlow
    omega

/-- A step count between two that are within the travel is within the travel. -/
theorem InTravel.between {config : PlannerConfig K} {limits : SoftLimits K}
    {axis : Fin 4} {a b x : Int32} (ha : InTravel config limits axis a)
    (hb : InTravel config limits axis b)
    (hlow : min a.toInt b.toInt ≤ x.toInt) (hhigh : x.toInt ≤ max a.toInt b.toInt) :
    InTravel config limits axis x := by
  intro hbounded
  obtain ⟨ha, ha'⟩ := ha hbounded
  obtain ⟨hb, hb'⟩ := hb hbounded
  exact ⟨(le_min ha hb).trans hlow, hhigh.trans (max_le ha' hb')⟩

/-! ## What a call appends -/

/-- `q` is `p` with blocks appended that end at the given stops, one after the
other. -/
def Appends (p q : Planner K) (stops : List (Axes Int32)) : Prop :=
  ∃ added : List (Block K),
    q.blocks.map (Block.withEntry · 0)
        = p.blocks.map (Block.withEntry · 0) ++ added.map (Block.withEntry · 0)
      ∧ blockEnds p.positionSteps added = stops
      ∧ q.positionSteps = stops.getLast?.getD p.positionSteps

omit [FloorRing K] in
theorem Appends.ends {p q : Planner K} {stops : List (Axes Int32)}
    (h : Appends p q stops) : p.enqueuedEnds q = stops := by
  obtain ⟨added, hblocks, hstops, _⟩ := h
  unfold enqueuedEnds
  rw [← hstops]
  apply blockEnds_core
  rw [List.map_drop, hblocks]
  exact List.drop_left' (List.length_map _)

omit [FloorRing K] in
theorem Appends.refl {p q : Planner K} (hblocks : q.blocks = p.blocks)
    (hpos : q.positionSteps = p.positionSteps) : Appends p q [] :=
  ⟨[], by rw [hblocks, List.map_nil, List.append_nil], rfl, hpos⟩

omit [FloorRing K] in
/-- Settling the queue changes entry speeds only. -/
theorem Appends.recalculate {p q : Planner K} {stops : List (Axes Int32)}
    (h : Appends p q stops) : Appends p q.recalculate stops := by
  obtain ⟨added, hblocks, hstops, hpos⟩ := h
  exact ⟨added, (core_recalculate q).trans hblocks, hstops, hpos⟩

omit [Field K] [LinearOrder K] [FloorRing K] in
theorem blockEnds_append (start : Axes Int32) (q r : List (Block K)) :
    blockEnds start (q ++ r) = blockEnds start q
      ++ blockEnds ((blockEnds start q).getLast?.getD start) r := by
  induction q generalizing start with
  | nil => rfl
  | cons block rest ih =>
    simp only [List.cons_append, blockEnds, ih]
    congr 2
    rw [List.getLast?_cons, Option.getD_some]

omit [FloorRing K] in
theorem Appends.trans {p q r : Planner K} {stops stops' : List (Axes Int32)}
    (h : Appends p q stops) (h' : Appends q r stops') :
    Appends p r (stops ++ stops') := by
  obtain ⟨added, hblocks, hstops, hpos⟩ := h
  obtain ⟨added', hblocks', hstops', hpos'⟩ := h'
  refine ⟨added ++ added', ?_, ?_, ?_⟩
  · rw [hblocks', hblocks, List.map_append, List.append_assoc]
  · rw [blockEnds_append, hstops, ← hpos, hstops']
  · rw [hpos', hpos, List.getLast?_append]
    cases stops'.getLast? <;> rfl

variable [Libm K]

omit [FloorRing K] in
/-- **An appended block ends at its target.** The wrapping sum of the position and
the wrapping difference is the target, whether or not the difference fits. -/
theorem append_appends {p : Planner K} {target : Axes Int32} {feed : K} {units : Units}
    {feedMode : FeedMode} {rapid jog : Bool} {block : Block K}
    (h : p.buildBlock target feed units feedMode rapid jog = some block) (o : Bool)
    (room : p.blocks.length < blockQueueLen) :
    Appends p ((p.note o).append target block room) [target] := by
  have hend : blockEnds p.positionSteps [block] = [target] := by
    show [fun axis => p.positionSteps axis + block.steps axis] = [target]
    rw [(buildBlock_spec h).steps]
    congr 1
    funext axis
    show p.positionSteps axis + (target axis - p.positionSteps axis) = target axis
    rw [Int32.add_comm, Int32.sub_add_cancel]
  exact ⟨[block], List.map_append, hend, rfl⟩

omit [FloorRing K] in
/-- A move appends nothing, or one block that ends at its target. -/
theorem enqueueMove_appends {p p' : Planner K} {target : Axes Int32} {feed : K}
    {units : Units} {feedMode : FeedMode} {rapid jog : Bool} {n : ℕ}
    (h : p.enqueueMove target feed units feedMode rapid jog = (.ok n, p')) :
    ∃ stops, (∀ stop ∈ stops, stop = target) ∧ Appends p p' stops := by
  rcases enqueueMove_cases p target feed units feedMode rapid jog with
    ⟨_, hmove⟩ | ⟨block, room, hbuild, hmove⟩ | ⟨_, hmove⟩
  · rw [hmove] at h
    obtain ⟨_, rfl⟩ := Prod.mk.inj h
    exact ⟨[], by simp, .refl rfl rfl⟩
  · rw [hmove] at h
    obtain ⟨_, rfl⟩ := Prod.mk.inj h
    exact ⟨[target], by simp, append_appends hbuild _ room⟩
  · rw [hmove] at h
    cases (Prod.mk.inj h).1

omit [FloorRing K] in
theorem planLine_appends {p p' : Planner K} {target : Axes Int32} {feed : K}
    {units : Units} {feedMode : FeedMode} {rapid : Bool} {n : ℕ}
    (h : p.planLine target feed units feedMode rapid = (.ok n, p')) :
    ∃ stops, (∀ stop ∈ stops, stop = target) ∧ Appends p p' stops := by
  unfold planLine at h
  cases hmove : p.enqueueMove target feed units feedMode rapid false with
  | mk result q =>
    rw [hmove] at h
    cases result with
    | error e => cases (Prod.mk.inj h).1
    | ok m =>
      obtain ⟨_, rfl⟩ := Prod.mk.inj h
      obtain ⟨stops, hstops, happends⟩ := enqueueMove_appends hmove
      refine ⟨stops, hstops, ?_⟩
      split
      · exact happends.recalculate
      · exact happends

/-! ## Commands under an envelope -/

omit [Libm K] in
/-- A check that lets a target through notes an overflow check and nothing else. -/
theorem checkTravel_of_not_forbids {p : Planner K} {limits : SoftLimits K}
    {target : Axes Int32} (h : p.forbids (some limits) target = false) :
    ∃ o, p.checkTravel (some limits) target = (false, p.note o)
      ∧ InEnvelope p.config limits target := by
  obtain ⟨o, hcheck, _⟩ := checkTravel_eq p (some limits) target
  rw [h] at hcheck
  exact ⟨o, hcheck, inEnvelope_of_not_violation h⟩

/-- Every block that `q` has beyond `p` ends inside the envelope. -/
def StaysInside (p q : Planner K) (limits : SoftLimits K) : Prop :=
  ∀ stop ∈ p.enqueuedEnds q, InEnvelope p.config limits stop

omit [Libm K] in
theorem Appends.inside {p q : Planner K} {limits : SoftLimits K}
    {stops : List (Axes Int32)} (h : Appends p q stops)
    (hin : ∀ stop ∈ stops, InEnvelope p.config limits stop) : StaysInside p q limits := by
  unfold StaysInside
  rw [h.ends]
  exact hin

omit [Libm K] in
/-- A call that appends nothing stays inside. -/
theorem StaysInside.refl {p q : Planner K} {limits : SoftLimits K}
    (hblocks : q.blocks = p.blocks) (hpos : q.positionSteps = p.positionSteps) :
    StaysInside p q limits :=
  (Appends.refl hblocks hpos).inside fun _ h => absurd h List.not_mem_nil

omit [FloorRing K] [Libm K] in
theorem appends_note (p : Planner K) (o : Bool) : Appends p (p.note o) [] :=
  .refl rfl rfl

/-- A command that is no arc stays inside. -/
theorem planCommandWithLimits_inside (p : Planner K) (limits : SoftLimits K)
    (command : PlannerCommand K)
    (harc : ∀ cw axes i j k plane units distance feed feedMode machineCoords,
      command ≠ .arc cw axes i j k plane units distance feed feedMode machineCoords)
    (hok : (p.planCommandWithLimits command (some limits)).1.isOk = true) :
    StaysInside p (p.planCommandWithLimits command (some limits)).2 limits := by
  cases command with
  | move rapid axes units distance feed feedMode machineCoords =>
    set target := p.resolveTarget axes units distance machineCoords with htarget
    simp only [planCommandWithLimits, ← htarget] at hok ⊢
    cases hforbid : p.forbids (some limits) target with
    | true =>
      obtain ⟨o, hcheck, _⟩ := checkTravel_eq p (some limits) target
      rw [hcheck, hforbid] at hok
      cases hok
    | false =>
      obtain ⟨o, hcheck, hin⟩ := checkTravel_of_not_forbids hforbid
      rw [hcheck] at hok ⊢
      dsimp only at hok ⊢
      cases hplan : (p.note o).planLine target feed units feedMode rapid with
      | mk result p' =>
        rw [hplan] at hok
        cases result with
        | error e => cases hok
        | ok n =>
          obtain ⟨stops, hstops, happends⟩ := planLine_appends hplan
          refine ((appends_note p o).trans happends).inside fun stop hstop => ?_
          rw [hstops stop hstop]
          exact hin
  | arc cw axes i j k plane units distance feed feedMode machineCoords =>
    exact absurd rfl (harc _ _ _ _ _ _ _ _ _ _ _)
  | probe | dwell | spindle | goToPredefined | coordinate | programEnd | programPause
  | coolant => exact .refl rfl rfl

/-- A jog stays inside. -/
theorem planJog_inside (p : Planner K) (limits : SoftLimits K) (jog : JogCommand K)
    (hok : (p.planJog jog (some limits)).1.isOk = true) :
    StaysInside p (p.planJog jog (some limits)).2 limits := by
  set target := p.resolveTarget jog.axes jog.units jog.distanceMode jog.machineCoords
    with htarget
  simp only [planJog, ← htarget] at hok ⊢
  cases hforbid : p.forbids (some limits) target with
  | true =>
    obtain ⟨o, hcheck, _⟩ := checkTravel_eq p (some limits) target
    rw [hcheck, hforbid] at hok
    cases hok
  | false =>
    obtain ⟨o, hcheck, hin⟩ := checkTravel_of_not_forbids hforbid
    rw [hcheck] at hok ⊢
    dsimp only at hok ⊢
    cases hmove : (p.note o).enqueueMove target jog.feed jog.units .unitsPerMin false
        true with
    | mk result p' =>
      rw [hmove] at hok
      cases result with
      | error e => cases hok
      | ok n =>
        obtain ⟨stops, hstops, happends⟩ := enqueueMove_appends hmove
        have hsettled : Appends (p.note o) (if n = 1 then p'.recalculate else p') stops := by
          split
          · exact happends.recalculate
          · exact happends
        refine ((appends_note p o).trans hsettled).inside fun stop hstop => ?_
        rw [hstops stop hstop]
        exact hin

omit [Libm K] in
/-- A recall that passes its check has both its targets in the envelope. -/
theorem checkRecall_inside {p q : Planner K} {limits : SoftLimits K}
    {interTarget : Option (Axes Int32)} {recallTarget : Axes Int32}
    (h : p.checkRecall (some limits) interTarget recallTarget = (false, q)) :
    Appends p q [] ∧ (∀ target ∈ interTarget, InEnvelope p.config limits target)
      ∧ InEnvelope p.config limits recallTarget := by
  -- One check that lets its target through.
  have hone : ∀ {p q : Planner K} {target : Axes Int32},
      p.checkTravel (some limits) target = (false, q) →
        q.config = p.config ∧ Appends p q [] ∧ InEnvelope p.config limits target := by
    intro p q target hcheck
    have hforbid : p.forbids (some limits) target = false := by
      unfold forbids
      rw [hcheck]
    obtain ⟨o, hcheck', hin⟩ := checkTravel_of_not_forbids hforbid
    rw [hcheck] at hcheck'
    obtain rfl := (Prod.mk.inj hcheck').2
    exact ⟨rfl, appends_note p o, hin⟩
  cases interTarget with
  | none =>
    obtain ⟨_, happends, hin⟩ := hone h
    exact ⟨happends, fun _ hnone => absurd hnone (by simp), hin⟩
  | some target =>
    unfold checkRecall at h
    dsimp only at h
    cases hcheck : p.checkTravel (some limits) target with
    | mk violation p' =>
      rw [hcheck] at h
      cases violation with
      | true => cases (Prod.mk.inj h).1
      | false =>
        obtain ⟨hconfig, happends, hin⟩ := hone hcheck
        obtain ⟨_, happends', hin'⟩ := hone h
        rw [hconfig] at hin'
        refine ⟨happends.trans happends', fun t ht => ?_, hin'⟩
        rw [← Option.mem_some.1 ht]
        exact hin

omit [FloorRing K] in
/-- The rapids of a recall end at its targets. -/
theorem planRecall_appends {p p' : Planner K} {interTarget : Option (Axes Int32)}
    {recallTarget : Axes Int32} {units : Units} {n : ℕ}
    (h : p.planRecall interTarget recallTarget units = (.ok n, p')) :
    ∃ stops, (∀ stop ∈ stops, stop ∈ interTarget ∨ stop = recallTarget)
      ∧ Appends p p' stops := by
  cases interTarget with
  | none =>
    obtain ⟨stops, hstops, happends⟩ := planLine_appends h
    exact ⟨stops, fun stop hstop => Or.inr (hstops stop hstop), happends⟩
  | some target =>
    unfold planRecall at h
    dsimp only at h
    cases hfirst : p.planLine target 0 units .unitsPerMin true with
    | mk result q =>
      rw [hfirst] at h
      cases result with
      | error e => cases (Prod.mk.inj h).1
      | ok m =>
        dsimp only at h
        cases hsecond : q.planLine recallTarget 0 units .unitsPerMin true with
        | mk result' q' =>
          rw [hsecond] at h
          cases result' with
          | error e => cases (Prod.mk.inj h).1
          | ok m' =>
            obtain rfl := (Prod.mk.inj h).2
            obtain ⟨stops, hstops, happends⟩ := planLine_appends hfirst
            obtain ⟨stops', hstops', happends'⟩ := planLine_appends hsecond
            refine ⟨stops ++ stops', fun stop hstop => ?_, happends.trans happends'⟩
            rcases List.mem_append.1 hstop with hstop | hstop
            · left
              rw [hstops stop hstop]
              rfl
            · exact Or.inr (hstops' stop hstop)

/-- A recall stays inside. -/
theorem planGoToPredefined_inside (p : Planner K) (limits : SoftLimits K)
    (intermediate : AxisWords K) (units : Units) (distance : DistanceMode)
    (predefined : Axes K)
    (hok : (p.planGoToPredefined intermediate units distance predefined
      (some limits)).1.isOk = true) :
    StaysInside p (p.planGoToPredefined intermediate units distance predefined
      (some limits)).2 limits := by
  unfold planGoToPredefined at hok ⊢
  dsimp only at hok ⊢
  cases hcheck : p.checkRecall (some limits)
      (p.intermediateTarget intermediate units distance) (p.recallTarget predefined) with
  | mk violation q =>
    rw [hcheck] at hok
    cases violation with
    | true => cases hok
    | false =>
      obtain ⟨happends, hinter, hrecall⟩ := checkRecall_inside hcheck
      dsimp only at hok ⊢
      split at hok
      · cases hok
      · rename_i hroom
        rw [if_neg hroom]
        cases hplan : q.planRecall (p.intermediateTarget intermediate units distance)
            (p.recallTarget predefined) units with
        | mk result p' =>
          rw [hplan] at hok
          cases result with
          | error e => cases hok
          | ok n =>
            obtain ⟨stops, hstops, happends'⟩ := planRecall_appends hplan
            refine (happends.trans happends').inside fun stop hstop => ?_
            rcases hstops stop hstop with hstop | hstop
            · exact hinter stop hstop
            · rw [hstop]
              exact hrecall

/-! ## The chords of an arc -/

section Chords

variable [IsStrictOrderedRing K]

omit [Libm K] in
/-- The step count of a position keeps the order. -/
theorem mmToSteps_mono {x y stepsPerMm : K} (hsteps : 0 < stepsPerMm) (h : x ≤ y) :
    (mmToSteps x stepsPerMm).toInt ≤ (mmToSteps y stepsPerMm).toInt := by
  unfold mmToSteps
  rw [toInt_roundToI32, toInt_roundToI32]
  exact clampI32_mono (roundf_mono (mul_le_mul_of_nonneg_right h hsteps.le))

omit [Libm K] in
/-- The step count of the commanded position is the commanded step count. -/
theorem mmToSteps_positionMm (p : Planner K) (axis : Fin 4) :
    mmToSteps (p.positionMm axis) (p.config.stepsPerMm axis) = p.positionSteps axis := by
  unfold mmToSteps positionMm roundToI32
  rw [div_mul_cancel₀ _ (p.config.stepsPerMm_pos axis).ne', roundf_intCast, satI32_toInt]

omit [Libm K] in
/-- The target in steps is the end of the arc, rounded. -/
theorem mmToSteps_arcEndpointMm (p : Planner K) (axes : AxisWords K) (units : Units)
    (distance : DistanceMode) (machineCoords : Bool) (axis : Fin 4) :
    mmToSteps (p.arcEndpointMm axes (unitsScale units) distance machineCoords
        p.positionMm axis) (p.config.stepsPerMm axis)
      = p.resolveTarget axes units distance machineCoords axis := by
  unfold arcEndpointMm resolveTarget
  cases axes.word axis with
  | none => exact mmToSteps_positionMm p axis
  | some value => cases distance <;> rfl

omit [IsStrictOrderedRing K] in
/-- Outside its plane an arc advances evenly from its start to its end. -/
theorem arcGeometry_outside {p : Planner K} {cw : Bool} {axes : AxisWords K}
    {i j k : Option K} {plane : Plane} {units : Units} {distance : DistanceMode}
    {feed : K} {feedMode : FeedMode} {machineCoords : Bool} {arc : ArcInProgress K}
    (h : p.arcGeometry cw axes i j k plane units distance feed feedMode machineCoords
      = some arc) :
    arc.plane = .forPlane plane ∧ arc.nextSeg = 1
      ∧ ∀ (n : ℕ) (axis : Fin 4), axis ≠ arc.plane.p0 → axis ≠ arc.plane.p1 →
        ({ arc with nextSeg := n }).segTargetMm axis = p.positionMm axis
          + (p.arcEndpointMm axes (unitsScale units) distance machineCoords
              p.positionMm axis - p.positionMm axis) * ((n : K) / arc.segments) := by
  unfold arcGeometry at h
  dsimp only at h
  split at h
  · cases h
  · split at h
    · cases h
    · obtain rfl := Option.some.inj h
      refine ⟨rfl, rfl, fun n axis hp0 hp1 => ?_⟩
      unfold ArcInProgress.segTargetMm
      dsimp only at hp0 hp1 ⊢
      by_cases ha : axis = aAxis
      · rw [ha, Function.update_self]
      · have hnormal : axis = (PlaneAxes.forPlane plane).normal := by
          revert axis
          cases plane <;> decide
        rw [Function.update_of_ne ha, hnormal, Function.update_self]

/-- The chords of an arc that are still to be fed stay inside the envelope outside
the plane of the arc. -/
def ChordsInside (config : PlannerConfig K) (limits : SoftLimits K)
    (arc : ArcInProgress K) : Prop :=
  ∀ n, arc.nextSeg ≤ n → n ≤ arc.segments →
    InEnvelopeOutside config limits arc.plane (({ arc with nextSeg := n }).segTarget config)

/-- **The chords of an arc stay inside outside its plane**, when its start and its
end are inside. -/
theorem chordsInside_arcGeometry {p : Planner K} {limits : SoftLimits K} {cw : Bool}
    {axes : AxisWords K} {i j k : Option K} {plane : Plane} {units : Units}
    {distance : DistanceMode} {feed : K} {feedMode : FeedMode} {machineCoords : Bool}
    {arc : ArcInProgress K}
    (h : p.arcGeometry cw axes i j k plane units distance feed feedMode machineCoords
      = some arc)
    (hstart : InEnvelope p.config limits p.positionSteps)
    (hend : InEnvelope p.config limits
      (p.resolveTarget axes units distance machineCoords)) :
    ChordsInside p.config limits arc := by
  obtain ⟨_, _, houtside⟩ := arcGeometry_outside h
  intro n _ hlast axis hp0 hp1
  set a := p.positionMm axis with ha
  set b := p.arcEndpointMm axes (unitsScale units) distance machineCoords p.positionMm
    axis with hb
  set t : K := (n : K) / arc.segments with ht
  have hsteps := p.config.stepsPerMm_pos axis
  have ht0 : 0 ≤ t := by positivity
  have ht1 : t ≤ 1 := div_le_one_of_le₀ (by exact_mod_cast hlast) (by positivity)
  have htarget : ({ arc with nextSeg := n }).segTarget p.config axis
      = mmToSteps (a + (b - a) * t) (p.config.stepsPerMm axis) := by
    show mmToSteps _ _ = _
    rw [houtside n axis hp0 hp1]
  have hfrom : mmToSteps a (p.config.stepsPerMm axis) = p.positionSteps axis :=
    mmToSteps_positionMm p axis
  have hto : mmToSteps b (p.config.stepsPerMm axis)
      = p.resolveTarget axes units distance machineCoords axis :=
    mmToSteps_arcEndpointMm p axes units distance machineCoords axis
  rw [htarget]
  apply (hstart axis).between (hend axis)
  · rw [← hfrom, ← hto]
    rcases le_total a b with hab | hab
    · refine (min_le_left _ _).trans (mmToSteps_mono hsteps ?_)
      nlinarith
    · refine (min_le_right _ _).trans (mmToSteps_mono hsteps ?_)
      nlinarith
  · rw [← hfrom, ← hto]
    rcases le_total a b with hab | hab
    · refine (mmToSteps_mono hsteps ?_).trans (le_max_right _ _)
      nlinarith
    · refine (mmToSteps_mono hsteps ?_).trans (le_max_left _ _)
      nlinarith

end Chords

/-- **Feeding segments appends chords of the arc**, and leaves the rest of it. -/
theorem feedSegments_appends (remaining : ℕ) (arc : ArcInProgress K) (enqueued : ℕ)
    (p : Planner K) (hremaining : remaining ≤ arc.remaining) :
    ∃ p' m total stops,
      feedSegments remaining arc enqueued p
          = (.ok ({ arc with nextSeg := m }, total), p')
        ∧ arc.nextSeg ≤ m ∧ p'.config = p.config ∧ Appends p p' stops
        ∧ ∀ stop ∈ stops, ∃ n, arc.nextSeg ≤ n ∧ n ≤ arc.segments
          ∧ stop = ({ arc with nextSeg := n }).segTarget p.config := by
  induction remaining generalizing arc enqueued p with
  | zero => exact ⟨p, arc.nextSeg, enqueued, [], rfl, le_rfl, rfl, .refl rfl rfl, by simp⟩
  | succ remaining ih =>
    unfold feedSegments
    split
    · rename_i hroom
      have hseg : arc.nextSeg ≤ arc.segments := by
        unfold ArcInProgress.remaining at hremaining
        omega
      -- The first chord, and the ones after it from where it ends.
      have hrest : ∀ (q : Planner K) (n : ℕ), q.config = p.config →
          p.enqueueMove (arc.segTarget p.config) arc.segFeed arc.units arc.feedMode false
            false = (.ok n, q) →
          ∃ p' m total stops, feedSegments remaining arc.advance (enqueued + n) q
              = (.ok ({ arc with nextSeg := m }, total), p')
            ∧ arc.nextSeg ≤ m ∧ p'.config = p.config ∧ Appends p p' stops
            ∧ ∀ stop ∈ stops, ∃ n, arc.nextSeg ≤ n ∧ n ≤ arc.segments
              ∧ stop = ({ arc with nextSeg := n }).segTarget p.config := by
        intro q n hconfig hmove
        obtain ⟨stops, hstops, happends⟩ := enqueueMove_appends hmove
        have hremaining' : remaining ≤ arc.advance.remaining := by
          unfold ArcInProgress.remaining at hremaining ⊢
          show remaining ≤ arc.segments + 1 - (arc.nextSeg + 1)
          omega
        obtain ⟨p', m, total, stops', hfeed, hm, hconfig', happends', hstops'⟩ :=
          ih arc.advance (enqueued + n) q hremaining'
        have hm' : arc.nextSeg + 1 ≤ m := hm
        refine ⟨p', m, total, stops ++ stops', hfeed, by omega, hconfig'.trans hconfig,
          happends.trans happends', fun stop hstop => ?_⟩
        rcases List.mem_append.1 hstop with hstop | hstop
        · exact ⟨arc.nextSeg, le_rfl, hseg, hstops stop hstop⟩
        · obtain ⟨k, hk, hlast, rfl⟩ := hstops' stop hstop
          have hk' : arc.nextSeg + 1 ≤ k := hk
          refine ⟨k, by omega, hlast, ?_⟩
          rw [hconfig]
          rfl
      rcases enqueueMove_cases p (arc.segTarget p.config) arc.segFeed arc.units
          arc.feedMode false false with ⟨_, h⟩ | ⟨block, room, _, h⟩ | ⟨hfull, _⟩
      · rw [h]
        exact hrest _ 0 rfl h
      · rw [h]
        exact hrest _ 1 rfl h
      · exact absurd hroom (not_lt.2 hfull)
    · exact ⟨p, arc.nextSeg, enqueued, [], rfl, le_rfl, rfl, .refl rfl rfl, by simp⟩

omit [FloorRing K] [Libm K] in
theorem Appends.withArc {p q : Planner K} {stops : List (Axes Int32)}
    (h : Appends p q stops) (arc : Option (ArcInProgress K)) :
    Appends p { q with arcInProgress := arc } stops := h

/-- The arc in progress, if there is one, is in a plane, and its chords stay inside
the envelope outside that plane. -/
def FeedsInside (config : PlannerConfig K) (limits : SoftLimits K) (plane : PlaneAxes)
    (p : Planner K) : Prop :=
  p.config = config
    ∧ ∀ arc ∈ p.arcInProgress, arc.plane = plane ∧ ChordsInside config limits arc

/-- A chunk of an arc whose chords stay inside stays inside, and so do the chords it
leaves. -/
theorem enqueueArcChunk_inside {p : Planner K} {limits : SoftLimits K}
    {arc : ArcInProgress K} (h : ChordsInside p.config limits arc) :
    (∀ stop ∈ p.enqueuedEnds (p.enqueueArcChunk arc).2,
        InEnvelopeOutside p.config limits arc.plane stop)
      ∧ FeedsInside p.config limits arc.plane (p.enqueueArcChunk arc).2 := by
  obtain ⟨p', m, total, stops, hfeed, hm, hconfig, happends, hstops⟩ :=
    feedSegments_appends arc.remaining arc 0 p le_rfl
  have hinside : ∀ stop ∈ stops, InEnvelopeOutside p.config limits arc.plane stop := by
    intro stop hstop
    obtain ⟨n, hn, hlast, rfl⟩ := hstops stop hstop
    exact h n hn hlast
  unfold enqueueArcChunk
  rw [hfeed]
  dsimp only
  split
  · refine ⟨?_, hconfig, by simp⟩
    rw [(happends.recalculate.withArc none).ends]
    exact hinside
  · refine ⟨?_, hconfig, fun arc' harc' => ?_⟩
    · rw [(happends.recalculate.withArc _).ends]
      exact hinside
    · obtain rfl := Option.some.inj harc'
      exact ⟨rfl, fun n hn hlast => h n (hm.trans hn) hlast⟩

/-- Feeding the rest of the arc and taking blocks stay inside outside its plane. -/
theorem FeedsInside.feeding {config : PlannerConfig K} {limits : SoftLimits K}
    {plane : PlaneAxes} {p : Planner K} (h : FeedsInside config limits plane p)
    {op : PlannerOp K} (hop : op = .resumeArc ∨ op = .popBlock) :
    (∀ stop ∈ p.enqueuedEnds (p.apply op), InEnvelopeOutside config limits plane stop)
      ∧ FeedsInside config limits plane (p.apply op) := by
  obtain ⟨rfl, harc⟩ := h
  rcases hop with rfl | rfl
  · show (∀ stop ∈ p.enqueuedEnds p.resumeArc.2, _) ∧ FeedsInside _ _ _ p.resumeArc.2
    unfold resumeArc
    cases hprogress : p.arcInProgress with
    | none =>
      dsimp only
      rw [(Appends.refl rfl rfl : Appends p p []).ends]
      exact ⟨by simp, rfl, by simp [hprogress]⟩
    | some arc =>
      obtain ⟨rfl, hchords⟩ := harc arc hprogress
      exact enqueueArcChunk_inside hchords
  · show (∀ stop ∈ p.enqueuedEnds ((p.popBlock.map Prod.snd).getD p), _)
      ∧ FeedsInside _ _ _ ((p.popBlock.map Prod.snd).getD p)
    cases hpop : p.popBlock with
    | none =>
      show (∀ stop ∈ p.enqueuedEnds p, _) ∧ FeedsInside _ _ _ p
      rw [(Appends.refl rfl rfl : Appends p p []).ends]
      exact ⟨by simp, rfl, harc⟩
    | some taken =>
      obtain ⟨block, p'⟩ := taken
      obtain ⟨rest, hblocks, rfl⟩ := (popBlock_eq_some_iff p p' block).1 hpop
      refine ⟨fun stop hstop => ?_, rfl, harc⟩
      have hnone : p.enqueuedEnds { p with queue := rest, headBusy := !rest.isEmpty } = [] := by
        unfold enqueuedEnds
        rw [hblocks, List.drop_eq_nil_of_le (by simp)]
        rfl
      have hstop' : stop ∈ p.enqueuedEnds { p with queue := rest, headBusy := !rest.isEmpty } :=
        hstop
      rw [hnone] at hstop'
      exact absurd hstop' List.not_mem_nil

/-- The ends of the blocks that a run of operations appends. -/
def runEnds : Planner K → List (PlannerOp K) → List (Axes Int32)
  | _, [] => []
  | p, op :: ops => p.enqueuedEnds (p.apply op) ++ runEnds (p.apply op) ops

/-- However the rest of an arc is fed, its chords stay inside. -/
theorem FeedsInside.run {config : PlannerConfig K} {limits : SoftLimits K}
    {plane : PlaneAxes} {p : Planner K} (h : FeedsInside config limits plane p)
    {ops : List (PlannerOp K)} (hops : ∀ op ∈ ops, op = .resumeArc ∨ op = .popBlock) :
    ∀ stop ∈ p.runEnds ops, InEnvelopeOutside config limits plane stop := by
  induction ops generalizing p with
  | nil => exact fun stop hstop => absurd hstop List.not_mem_nil
  | cons op ops ih =>
    intro stop hstop
    obtain ⟨hchunk, hnext⟩ := h.feeding (hops op List.mem_cons_self)
    rcases List.mem_append.1 hstop with hstop | hstop
    · exact hchunk stop hstop
    · exact ih hnext (fun o ho => hops o (List.mem_cons_of_mem _ ho)) stop hstop

end Planner

namespace PlannerOp

/-- The envelope an operation is planned under. -/
def limits : PlannerOp K → Option (SoftLimits K)
  | plan _ limits | jog _ limits | goToPredefined _ _ _ _ limits => limits
  | _ => none

/-- The operation is planned without error. -/
def accepted [FloorRing K] [Libm K] (p : Planner K) : PlannerOp K → Bool
  | .plan command limits => (p.planCommandWithLimits command limits).1.isOk
  | .jog command limits => (p.planJog command limits).1.isOk
  | goToPredefined intermediate units distance predefined limits =>
    (p.planGoToPredefined intermediate units distance predefined limits).1.isOk
  | resumeArc => p.resumeArc.1.isOk
  | _ => true

end PlannerOp

namespace Planner

variable [IsStrictOrderedRing K] [FloorRing K] [Libm K]

/-- An arc that is accepted ends inside the envelope, and outside its plane its
chords stay inside, however they are fed. -/
theorem planArc_inside (p : Planner K) (limits : SoftLimits K) (cw : Bool)
    (axes : AxisWords K) (i j k : Option K) (plane : Plane) (units : Units)
    (distance : DistanceMode) (feed : K) (feedMode : FeedMode) (machineCoords : Bool)
    (hstart : InEnvelope p.config limits p.positionSteps)
    (hok : (p.planCommandWithLimits (.arc cw axes i j k plane units distance feed
      feedMode machineCoords) (some limits)).1.isOk = true) :
    InEnvelope p.config limits (p.resolveTarget axes units distance machineCoords)
      ∧ ∀ feeding : List (PlannerOp K),
        (∀ op ∈ feeding, op = .resumeArc ∨ op = .popBlock) →
        ∀ stop ∈ p.runEnds (.plan (.arc cw axes i j k plane units distance feed feedMode
            machineCoords) (some limits) :: feeding),
          InEnvelopeOutside p.config limits (.forPlane plane) stop := by
  cases hforbid : p.forbids (some limits)
      (p.resolveTarget axes units distance machineCoords) with
  | true =>
    obtain ⟨o, hcheck, _⟩ := checkTravel_eq p (some limits)
      (p.resolveTarget axes units distance machineCoords)
    simp only [planCommandWithLimits, hcheck, hforbid] at hok
    cases hok
  | false =>
    obtain ⟨o, hcheck, hend⟩ := checkTravel_of_not_forbids hforbid
    refine ⟨hend, fun feeding hfeeding => ?_⟩
    cases hgeometry : (p.note o).arcGeometry cw axes i j k plane units distance feed
        feedMode machineCoords with
    | none =>
      simp only [planCommandWithLimits, hcheck, planArc, hgeometry] at hok
      cases hok
    | some arc =>
      have hchords : ChordsInside p.config limits arc :=
        chordsInside_arcGeometry (p := p.note o) hgeometry hstart hend
      have hchunk := enqueueArcChunk_inside (p := p.note o) hchords
      obtain ⟨hplane, _, _⟩ := arcGeometry_outside hgeometry
      have happly : p.apply (.plan (.arc cw axes i j k plane units distance feed feedMode
          machineCoords) (some limits)) = ((p.note o).enqueueArcChunk arc).2 := by
        simp only [apply, planCommandWithLimits, hcheck, planArc, hgeometry]
      intro stop hstop
      unfold runEnds at hstop
      rw [happly] at hstop
      rw [← hplane]
      rcases List.mem_append.1 hstop with hstop | hstop
      · exact hchunk.1 stop hstop
      · exact hchunk.2.run hfeeding stop hstop

/-- **What is planned under an envelope ends inside it**, give or take one step:
every block of a line, a rapid, a jog or a recall. An arc that starts inside ends
inside, and its chords, the ones that are fed later included, stay inside on
every axis outside its plane. -/
theorem planned_in_envelope (p : Planner K) (limits : SoftLimits K) (op : PlannerOp K)
    (hstart : InEnvelope p.config limits p.positionSteps)
    (hlimits : op.limits = some limits) (hok : op.accepted p = true) :
    match op with
    | .plan (.arc _ axes _ _ _ plane units distance _ _ machineCoords) _ =>
      InEnvelope p.config limits (p.resolveTarget axes units distance machineCoords)
        ∧ ∀ feeding : List (PlannerOp K),
          (∀ o ∈ feeding, o = .resumeArc ∨ o = .popBlock) →
          ∀ stop ∈ p.runEnds (op :: feeding),
            InEnvelopeOutside p.config limits (.forPlane plane) stop
    | op => ∀ stop ∈ p.enqueuedEnds (p.apply op), InEnvelope p.config limits stop := by
  cases op with
  | plan command l =>
    obtain rfl : l = some limits := hlimits
    cases command with
    | arc cw axes i j k plane units distance feed feedMode machineCoords =>
      exact planArc_inside p limits cw axes i j k plane units distance feed feedMode
        machineCoords hstart hok
    | _ => exact planCommandWithLimits_inside p limits _ (by simp) hok
  | jog command l =>
    obtain rfl : l = some limits := hlimits
    exact planJog_inside p limits command hok
  | goToPredefined intermediate units distance predefined l =>
    obtain rfl : l = some limits := hlimits
    exact planGoToPredefined_inside p limits intermediate units distance predefined hok
  | _ => cases hlimits

theorem planned_in_envelope_bench :
    InEnvelope (benchConfig (K := ℚ)) ⟨fun _ => 100⟩ (fun _ => 0)
      ∧ ∀ stop ∈ (new (benchConfig (K := ℚ))).enqueuedEnds
          ((new benchConfig).apply (.plan (.moveX false (-10) 600) (some ⟨fun _ => 100⟩))),
        InEnvelope (benchConfig (K := ℚ)) ⟨fun _ => 100⟩ stop := by
  have hstart : InEnvelope (benchConfig (K := ℚ)) ⟨fun _ => 100⟩ fun _ => 0 := by
    unfold InEnvelope InTravel
    decide +kernel
  exact ⟨hstart, planned_in_envelope (new benchConfig) ⟨fun _ => 100⟩
    (.plan (.moveX false (-10) 600) (some ⟨fun _ => 100⟩)) hstart rfl (by decide +kernel)⟩

/-! ## An arc that bulges out -/

omit [IsStrictOrderedRing K] in
/-- The chord an arc feeds first, when the queue has room and the chord has length. -/
theorem firstChord_mem {p : Planner K} {arc : ArcInProgress K}
    (hroom : p.queue.len < blockQueueLen) (hseg : arc.nextSeg ≤ arc.segments)
    (hmove : ¬NoMove p.config (p.stepDelta (arc.segTarget p.config))) :
    arc.segTarget p.config ∈ p.enqueuedEnds (p.enqueueArcChunk arc).2 := by
  set target := arc.segTarget p.config with htarget
  have hremaining : arc.remaining = arc.advance.remaining + 1 := by
    show arc.segments + 1 - arc.nextSeg = arc.segments + 1 - (arc.nextSeg + 1) + 1
    omega
  rcases enqueueMove_cases p target arc.segFeed arc.units arc.feedMode false false with
    ⟨hno, _⟩ | ⟨block, room, hbuild, h⟩ | ⟨hfull, _⟩
  · exact absurd hno hmove
  · obtain ⟨p', m, total, stops, hfeed, _, _, happends, _⟩ :=
      feedSegments_appends arc.advance.remaining arc.advance (0 + 1)
        ((p.note (p.deltaOverflows target)).append target block room) le_rfl
    have hall : Appends p p' ([target] ++ stops) :=
      (append_appends hbuild _ room).trans happends
    have hfirst : feedSegments arc.remaining arc 0 p
        = (.ok ({ arc.advance with nextSeg := m }, total), p') := by
      rw [hremaining]
      unfold feedSegments
      rw [if_pos hroom, ← htarget, h]
      exact hfeed
    unfold enqueueArcChunk
    rw [hfirst]
    dsimp only
    split
    · rw [(hall.recalculate.withArc none).ends]
      exact List.mem_cons_self
    · rw [(hall.recalculate.withArc _).ends]
      exact List.mem_cons_self
  · exact absurd hroom (not_lt.2 hfull)

/-- The settings of the small machine, with a chord tolerance of 10 mm. -/
noncomputable def coarseConfig : PlannerConfig ℝ :=
  { benchConfig with arcToleranceMm := 10, arcToleranceMm_pos := by norm_num }

/-- The machine at X-10. -/
noncomputable def atMinusTen : Planner ℝ :=
  (new coarseConfig).syncPosition ![-1000, 0, 0, 0]

/-- The end of a half turn. -/
def halfTurnWords : AxisWords ℝ := ⟨some (-30), some 0, none, none⟩

/-- A `G3` line: half a turn from X-10 to X-30 around X-20. -/
noncomputable def halfTurn : PlannerCommand ℝ :=
  .arc false halfTurnWords (some (-10)) none none .xy .millimeter .absolute 600
    .unitsPerMin false

/-- What the half turn feeds: two chords, a quarter turn each. -/
noncomputable def halfTurnArc : ArcInProgress ℝ where
  plane := .forPlane .xy
  center := (-20, 0)
  radius := 10
  thetaStart := 0
  thetaStep := Real.pi / 2
  segments := 2
  nextSeg := 1
  normalStart := 0
  normalDelta := 0
  aStart := 0
  aDelta := 0
  segFeed := 600
  units := .millimeter
  feedMode := .unitsPerMin

theorem arcSweepAngle_halfTurn : arcSweepAngle ((10, 0) : ℝ × ℝ) (-10, 0) false = Real.pi := by
  have harg : Complex.arg ⟨10 * -10 + 0 * 0, 10 * 0 - 0 * -10⟩ = Real.pi := by
    rw [Complex.arg_eq_pi_iff]
    norm_num
  show (if Complex.arg ⟨10 * -10 + 0 * 0, 10 * 0 - 0 * -10⟩ ≤ 0 then _ else
    Complex.arg ⟨10 * -10 + 0 * 0, 10 * 0 - 0 * -10⟩) = _
  rw [harg, if_neg (not_le.2 Real.pi_pos)]

theorem arcSegmentCount_halfTurn : arcSegmentCount (10 : ℝ) Real.pi 10 = 2 := by
  have hangle : Real.pi / 2 ≤ Real.pi / 2 := le_rfl
  have hpi := Real.pi_gt_three
  unfold arcSegmentCount
  have hmax : max (Real.arccos 0) f32Epsilon = Real.pi / 2 := by
    rw [Real.arccos_zero]
    apply max_eq_left
    unfold f32Epsilon
    linarith
  have hratio : (1 - 10 / 10 : ℝ) = 0 := by norm_num
  dsimp only
  rw [hratio, if_neg (by norm_num), if_neg (by norm_num)]
  show max (min ⌈|Real.pi| / max (Real.arccos 0) f32Epsilon⌉.toNat 4294967295) 1 = 2
  rw [hmax, abs_of_pos Real.pi_pos, div_div_cancel₀ Real.pi_ne_zero,
    Int.ceil_ofNat]
  rfl

theorem positionMm_atMinusTen : atMinusTen.positionMm = ![-10, 0, 0, 0] := by
  funext axis
  fin_cases axis
  · show (((-1000 : Int32).toInt : ℝ)) / 100 = -10
    rw [show (-1000 : Int32).toInt = -1000 from rfl]
    norm_num
  all_goals
    show (((0 : Int32).toInt : ℝ)) / 100 = 0
    rw [show (0 : Int32).toInt = 0 from rfl]
    norm_num

theorem arcEndpointMm_halfTurn :
    atMinusTen.arcEndpointMm halfTurnWords 1 .absolute false ![-10, 0, 0, 0]
      = ![-30, 0, 0, 0] := by
  funext axis
  fin_cases axis
  · show -30 * (if atMinusTen.config.isRotary 0 = true then 1 else 1) + 0 = (-30 : ℝ)
    rw [ite_self, mul_one, add_zero]
  · show 0 * _ + 0 = 0
    rw [zero_mul, add_zero]
  · rfl
  · rfl

/-- A radius of 10 mm along X. -/
theorem radius_ten : sqrtf (100 : ℝ) = 10 ∧ Libm.atan2f (0 : ℝ) 10 = 0
    ∧ lengthEpsilonMm ≤ (10 : ℝ) := by
  refine ⟨?_, ?_, ?_⟩
  · rw [show (100 : ℝ) = 10 * 10 by norm_num]
    exact sqrtf_mul_self_eq (by norm_num)
  · show Complex.arg ⟨10, 0⟩ = 0
    rw [Complex.arg_eq_zero_iff]
    norm_num
  · unfold lengthEpsilonMm
    norm_num

theorem arcGeometry_halfTurn :
    atMinusTen.arcGeometry false halfTurnWords (some (-10)) none none .xy .millimeter
      .absolute 600 .unitsPerMin false = some halfTurnArc := by
  have htolerance : atMinusTen.config.arcToleranceMm = 10 := rfl
  obtain ⟨hradius, htheta, hlong⟩ := radius_ten
  unfold arcGeometry halfTurnArc
  rw [positionMm_atMinusTen, htolerance, unitsScale]
  dsimp only
  rw [arcEndpointMm_halfTurn]
  simp only [PlaneAxes.forPlane, PlaneAxes.hasOffset, PlaneAxes.offsets,
    PlaneAxes.offsetForAxis, xAxis, yAxis, zAxis, aAxis]
  norm_num [hradius, htheta, hlong, arcSweepAngle_halfTurn, arcSegmentCount_halfTurn]
  exact ⟨rfl, sub_self _, rfl, sub_self _⟩

/-- The first chord is 200 mm² long. -/
theorem moves_halfTurn : ¬NoMove coarseConfig ![-1000, 1000, 0, 0] := by
  have hsum : ∑ axis, deltaMm coarseConfig ![-1000, 1000, 0, 0] axis
      * deltaMm coarseConfig ![-1000, 1000, 0, 0] axis = 200 := by
    have hx : deltaMm coarseConfig ![-1000, 1000, 0, 0] 0 = ((-1000 : ℤ) : ℝ) / 100 := rfl
    have hy : deltaMm coarseConfig ![-1000, 1000, 0, 0] 1 = ((1000 : ℤ) : ℝ) / 100 := rfl
    have hz : deltaMm coarseConfig ![-1000, 1000, 0, 0] 2 = ((0 : ℤ) : ℝ) / 100 := rfl
    have ha : deltaMm coarseConfig ![-1000, 1000, 0, 0] 3 = ((0 : ℤ) : ℝ) / 100 := rfl
    rw [Fin.sum_univ_four, hx, hy, hz, ha]
    norm_num
  rintro (hshort | hnone)
  · unfold lengthMm at hshort
    rw [hsum] at hshort
    have hlong : (1 : ℝ) ≤ Real.sqrt 200 := Real.one_le_sqrt.2 (by norm_num)
    have htiny : (lengthEpsilonMm : ℝ) < 1 := by
      unfold lengthEpsilonMm
      norm_num
    exact absurd (hshort.trans htiny) (not_lt.2 hlong)
  · exact absurd hnone (by decide)

theorem mmToSteps_of_eq (x stepsPerMm : ℝ) (n : ℤ) (h : x * stepsPerMm = n) :
    mmToSteps x stepsPerMm = satI32 n := by
  unfold mmToSteps roundToI32
  rw [h, roundf_intCast]

theorem segTarget_halfTurn : halfTurnArc.segTarget coarseConfig = ![-2000, 1000, 0, 0] := by
  have htheta : halfTurnArc.thetaStart + halfTurnArc.thetaStep * halfTurnArc.nextSeg
      = Real.pi / 2 := by
    show 0 + Real.pi / 2 * ((1 : ℕ) : ℝ) = Real.pi / 2
    rw [Nat.cast_one, mul_one, zero_add]
  funext axis
  fin_cases axis
  · show mmToSteps (-20 + 10 * Real.cos (halfTurnArc.thetaStart
      + halfTurnArc.thetaStep * halfTurnArc.nextSeg)) 100 = satI32 (-2000)
    apply mmToSteps_of_eq _ _ _
    rw [htheta, Real.cos_pi_div_two]
    norm_num
  · show mmToSteps (0 + 10 * Real.sin (halfTurnArc.thetaStart
      + halfTurnArc.thetaStep * halfTurnArc.nextSeg)) 100 = satI32 1000
    apply mmToSteps_of_eq _ _ _
    rw [htheta, Real.sin_pi_div_two]
    norm_num
  all_goals
    show mmToSteps (0 + 0 * _) 100 = satI32 0
    apply mmToSteps_of_eq _ _ _
    norm_num

/-- 100 mm of travel. -/
def benchTravel : SoftLimits ℝ := ⟨fun _ => 100⟩

theorem resolveTarget_halfTurn :
    atMinusTen.resolveTarget halfTurnWords .millimeter .absolute false
      = ![-3000, 0, 0, 0] := by
  funext axis
  rw [← mmToSteps_arcEndpointMm, positionMm_atMinusTen]
  show mmToSteps (atMinusTen.arcEndpointMm halfTurnWords 1 .absolute false _ axis) 100 = _
  rw [arcEndpointMm_halfTurn]
  fin_cases axis
  · exact mmToSteps_of_eq (-30) 100 (-3000) (by norm_num)
  all_goals exact mmToSteps_of_eq 0 100 0 (by norm_num)

theorem travelSteps_bench (axis : Fin 4) :
    travelSteps atMinusTen.config.stepsPerMm benchTravel.maxTravelMm axis = -10000 := by
  show mmToSteps (-100 : ℝ) 100 = -10000
  rw [mmToSteps_of_eq (-100) 100 (-10000) (by norm_num)]
  decide

theorem forbids_halfTurn :
    atMinusTen.forbids (some benchTravel)
      (atMinusTen.resolveTarget halfTurnWords .millimeter .absolute false) = false := by
  unfold forbids checkTravel softLimitViolation axisViolation
  simp only [travelSteps_bench, resolveTarget_halfTurn]
  decide

/-- **An arc between two points of the envelope leaves it.** -/
theorem arc_leaves_envelope :
    InEnvelope atMinusTen.config benchTravel atMinusTen.positionSteps
      ∧ (PlannerOp.plan halfTurn (some benchTravel)).accepted atMinusTen = true
      ∧ ¬∀ stop ∈ atMinusTen.enqueuedEnds
          (atMinusTen.apply (.plan halfTurn (some benchTravel))),
        InEnvelope atMinusTen.config benchTravel stop := by
  obtain ⟨o, hcheck, _⟩ := checkTravel_of_not_forbids forbids_halfTurn
  have hgeometry : (atMinusTen.note o).arcGeometry false halfTurnWords (some (-10)) none
      none .xy .millimeter .absolute 600 .unitsPerMin false = some halfTurnArc :=
    arcGeometry_halfTurn
  have hplan : atMinusTen.planCommandWithLimits halfTurn (some benchTravel)
      = (atMinusTen.note o).enqueueArcChunk halfTurnArc := by
    simp only [halfTurn, planCommandWithLimits, hcheck, planArc, hgeometry]
  refine ⟨?_, ?_, ?_⟩
  · intro axis _
    rw [travelSteps_bench]
    fin_cases axis <;> decide
  · show (atMinusTen.planCommandWithLimits halfTurn (some benchTravel)).1.isOk = true
    rw [hplan]
    obtain ⟨p', m, total, stops, hfeed, _⟩ :=
      feedSegments_appends halfTurnArc.remaining halfTurnArc 0 (atMinusTen.note o) le_rfl
    unfold enqueueArcChunk
    rw [hfeed]
    dsimp only
    split <;> rfl
  · intro hinside
    have hdelta : (atMinusTen.note o).stepDelta (halfTurnArc.segTarget coarseConfig)
        = ![-1000, 1000, 0, 0] := by
      rw [segTarget_halfTurn]
      funext axis
      fin_cases axis
      · show (-2000 : Int32) - -1000 = -1000
        decide
      · show (1000 : Int32) - 0 = 1000
        decide
      all_goals exact Int32.sub_self 0
    have hmem : halfTurnArc.segTarget coarseConfig
        ∈ atMinusTen.enqueuedEnds ((atMinusTen.note o).enqueueArcChunk halfTurnArc).2 := by
      refine firstChord_mem (p := atMinusTen.note o) (by show 0 < 32; decide) one_le_two ?_
      show ¬NoMove coarseConfig ((atMinusTen.note o).stepDelta (halfTurnArc.segTarget coarseConfig))
      rw [hdelta]
      exact moves_halfTurn
    rw [← hplan] at hmem
    have hfirst := (hinside _ hmem yAxis (by decide)).2
    rw [segTarget_halfTurn] at hfirst
    exact absurd hfirst (by decide)

end Planner

end Galdr
