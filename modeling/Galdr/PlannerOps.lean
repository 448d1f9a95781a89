import Galdr.PlannerSteps

/-!
# The operations of the planner

What the consumer and the executor do to the planner, as one type of operation
(`PlannerOp`). The operations that plan are paths of small steps
(`PlannerOp.path`); the others take blocks from the queue or reset a part of
the state.
-/

namespace Galdr

open Relation

/-- An operation on the planner. -/
inductive PlannerOp (K : Type) [Field K] [LinearOrder K]
  /-- `plan_command_with_limits`. -/
  | plan (command : PlannerCommand K) (limits : Option (SoftLimits K))
  /-- `plan_jog`. -/
  | jog (jog : JogCommand K) (limits : Option (SoftLimits K))
  /-- `plan_go_to_predefined`. -/
  | goToPredefined (intermediate : AxisWords K) (units : Units)
      (distance : DistanceMode) (predefined : Axes K) (limits : Option (SoftLimits K))
  /-- `resume_arc`. -/
  | resumeArc
  /-- `abort_arc`. -/
  | abortArc
  /-- `pop_block`. -/
  | popBlock
  /-- `flush_jog_blocks`. -/
  | flushJogBlocks
  /-- `flush_queue`. -/
  | flushQueue
  /-- `sync_position`. -/
  | syncPosition (steps : Axes Int32)
  /-- `set_config`. -/
  | setConfig (config : PlannerConfig K)
  /-- `set_work_offset`. -/
  | setWorkOffset (wco : Axes (Option K))

variable {K : Type} [Field K] [LinearOrder K]

/-- The operation plans: it may append blocks and settles the queue. -/
def PlannerOp.plans : PlannerOp K → Bool
  | plan _ _ | jog _ _ | goToPredefined _ _ _ _ _ | resumeArc | abortArc => true
  | _ => false

namespace Planner

variable [FloorRing K] [Libm K]

/-- The planner after an operation. -/
def apply (p : Planner K) : PlannerOp K → Planner K
  | .plan command limits => (p.planCommandWithLimits command limits).2
  | .jog jog limits => (p.planJog jog limits).2
  | .goToPredefined intermediate units distance predefined limits =>
    (p.planGoToPredefined intermediate units distance predefined limits).2
  | .resumeArc => p.resumeArc.2
  | .abortArc => p.abortArc
  | .popBlock => (p.popBlock.map Prod.snd).getD p
  | .flushJogBlocks => p.flushJogBlocks
  | .flushQueue => p.flushQueue
  | .syncPosition steps => p.syncPosition steps
  | .setConfig config => p.setConfig config
  | .setWorkOffset wco => p.setWorkOffset wco

/-- The step differences of a recall are true ones: to the intermediate point,
and from where that move ends to the position. -/
def RecallExact (p : Planner K) (interTarget : Option (Axes Int32))
    (recallTarget : Axes Int32) : Prop :=
  (∀ target ∈ interTarget, p.DeltaExact target)
    ∧ ∀ axis, SubFits (recallTarget axis)
        (landing p.config p.positionSteps (interTarget.getD p.positionSteps) axis)

/-- No step subtraction of the operation leaves the 32-bit range: the travel does
not saturate, and every target the operation plans differs from the position it
is planned from by a 32-bit value. -/
def OpExact (p : Planner K) : PlannerOp K → Prop
  | .plan (.move _ axes units distance _ _ machineCoords) limits =>
    let target := p.resolveTarget axes units distance machineCoords
    p.TravelExact limits ∧ (p.forbids limits target = false → p.DeltaExact target)
  | .plan (.arc cw axes i j k plane units distance feed feedMode machineCoords) limits =>
    p.TravelExact limits
      ∧ (p.forbids limits (p.resolveTarget axes units distance machineCoords) = false →
        ∀ arc ∈ p.arcGeometry cw axes i j k plane units distance feed feedMode
          machineCoords, p.ChunkExact arc)
  | .jog jog limits =>
    let target := p.resolveTarget jog.axes jog.units jog.distanceMode jog.machineCoords
    p.TravelExact limits ∧ (p.forbids limits target = false → p.DeltaExact target)
  | .goToPredefined intermediate units distance predefined limits =>
    p.TravelExact limits
      ∧ p.RecallExact (p.intermediateTarget intermediate units distance)
          (p.recallTarget predefined)
  | .resumeArc => ∀ arc ∈ p.arcInProgress, p.ChunkExact arc
  | _ => True

variable {exact : Prop}

/-- Planning a command is a path that ends settled. -/
theorem planCommandWithLimits_path (p : Planner K) (command : PlannerCommand K)
    (limits : Option (SoftLimits K)) (hexact : exact → p.OpExact (.plan command limits)) :
    PlanPath exact (true, p) (true, (p.planCommandWithLimits command limits).2) := by
  cases command with
  | move rapid axes units distance feed feedMode machineCoords =>
    set target := p.resolveTarget axes units distance machineCoords with htarget
    obtain ⟨o, hcheck, hfalse⟩ := checkTravel_eq p limits target
    have hnote : PlanPath exact (true, p) (true, p.note o) :=
      .single (.note true p o fun h => hfalse (hexact h).1)
    simp only [planCommandWithLimits, ← htarget, hcheck]
    cases hforbid : p.forbids limits target with
    | true => exact hnote
    | false =>
      dsimp only
      have hline := planLine_path (p.note o) target feed units feedMode rapid
        fun (h : exact) => (hexact h).2 hforbid
      cases hplan : (p.note o).planLine target feed units feedMode rapid with
      | mk result p' =>
        rw [hplan] at hline
        cases result <;> exact hnote.trans hline
  | arc cw axes i j k plane units distance feed feedMode machineCoords =>
    set target := p.resolveTarget axes units distance machineCoords with htarget
    obtain ⟨o, hcheck, hfalse⟩ := checkTravel_eq p limits target
    have hnote : PlanPath exact (true, p) (true, p.note o) :=
      .single (.note true p o fun h => hfalse (hexact h).1)
    simp only [planCommandWithLimits, ← htarget, hcheck]
    cases hforbid : p.forbids limits target with
    | true => exact hnote
    | false =>
      have hgeom : (p.note o).arcGeometry cw axes i j k plane units distance feed
          feedMode machineCoords = p.arcGeometry cw axes i j k plane units distance
          feed feedMode machineCoords := rfl
      simp only [planArc, hgeom]
      cases harc : p.arcGeometry cw axes i j k plane units distance feed feedMode
          machineCoords with
      | none => exact hnote
      | some arc =>
        exact hnote.trans (enqueueArcChunk_path true (p.note o) arc fun h =>
          (hexact h).2 hforbid arc harc)
  | probe kind axes units distance feed => exact .single (.flush true p)
  | dwell seconds => exact .single (.flush true p)
  | spindle state speed => exact .refl
  | goToPredefined isG28 intermediate units distance => exact .single (.flush true p)
  | coordinate op => exact .refl
  | programEnd => exact .single (.flush true p)
  | programPause optional toolChange => exact .single (.flush true p)
  | coolant state => exact .refl

/-- Planning a jog is a path that ends settled. -/
theorem planJog_path (p : Planner K) (jog : JogCommand K)
    (limits : Option (SoftLimits K)) (hexact : exact → p.OpExact (.jog jog limits)) :
    PlanPath exact (true, p) (true, (p.planJog jog limits).2) := by
  set target := p.resolveTarget jog.axes jog.units jog.distanceMode jog.machineCoords
    with htarget
  obtain ⟨o, hcheck, hfalse⟩ := checkTravel_eq p limits target
  have hnote : PlanPath exact (true, p) (true, p.note o) :=
    .single (.note true p o fun h => hfalse (hexact h).1)
  simp only [planJog, ← htarget, hcheck]
  cases hforbid : p.forbids limits target with
  | true => exact hnote
  | false =>
    obtain ⟨settled', hpath, hsame⟩ := enqueueMove_path true (p.note o) target
      jog.feed jog.units .unitsPerMin false true fun (h : exact) =>
        (hexact h).2 hforbid
    have hboth := hnote.trans hpath
    dsimp only
    cases hmove : (p.note o).enqueueMove target jog.feed jog.units .unitsPerMin
        false true with
    | mk result p' =>
      rw [hmove] at hboth hsame
      cases result with
      | error e =>
        obtain rfl := hsame nofun
        exact hboth
      | ok n =>
        by_cases hn : n = 1
        · subst hn
          exact hboth.tail (.recalculate settled' p')
        · obtain rfl := hsame (by simpa using hn)
          simpa [hn] using hboth

omit [FloorRing K] in
/-- Where a planned line leaves the planner. -/
theorem planLine_landing {p p' : Planner K} {target : Axes Int32} {feed : K}
    {units : Units} {feedMode : FeedMode} {rapid : Bool} {n : ℕ}
    (h : p.planLine target feed units feedMode rapid = (.ok n, p')) :
    p'.positionSteps = landing p.config p.positionSteps target
      ∧ p'.config = p.config := by
  unfold planLine at h
  rcases enqueueMove_cases p target feed units feedMode rapid false with
    ⟨hno, hmove⟩ | ⟨block, room, hbuild, hmove⟩ | ⟨_, hmove⟩
  · have hno' : NoMove p.config fun axis => target axis - p.positionSteps axis := hno
    rw [hmove] at h
    obtain rfl := (Prod.mk.inj h).2
    rw [landing, if_pos hno']
    exact ⟨rfl, rfl⟩
  · have hmoved : ¬NoMove p.config fun axis => target axis - p.positionSteps axis := by
      intro hno
      rw [(buildBlock_eq_none_iff p target feed units feedMode rapid false).2 hno] at hbuild
      cases hbuild
    rw [hmove] at h
    obtain rfl := (Prod.mk.inj h).2
    rw [landing, if_neg hmoved]
    exact ⟨rfl, rfl⟩
  · rw [hmove] at h
    cases (Prod.mk.inj h).1

omit [Libm K] in
/-- Checking a recall only notes overflow checks. -/
theorem checkRecall_path (p : Planner K) (limits : Option (SoftLimits K))
    (interTarget : Option (Axes Int32)) (recallTarget : Axes Int32)
    (hexact : exact → p.TravelExact limits) :
    ∃ violation o, p.checkRecall limits interTarget recallTarget = (violation, p.note o)
      ∧ (exact → o = false) := by
  cases interTarget with
  | none =>
    obtain ⟨o, hcheck, hfalse⟩ := checkTravel_eq p limits recallTarget
    exact ⟨_, o, hcheck, fun h => hfalse (hexact h)⟩
  | some target =>
    obtain ⟨o, hcheck, hfalse⟩ := checkTravel_eq p limits target
    simp only [checkRecall, hcheck]
    cases p.forbids limits target with
    | true => exact ⟨true, o, rfl, fun h => hfalse (hexact h)⟩
    | false =>
      obtain ⟨o', hcheck', hfalse'⟩ := checkTravel_eq (p.note o) limits recallTarget
      refine ⟨(p.note o).forbids limits recallTarget, o || o', hcheck'.trans ?_,
        fun h => ?_⟩
      · simp only [note, Bool.or_assoc]
      · rw [hfalse (hexact h), hfalse' (hexact h)]
        rfl

omit [FloorRing K] in
/-- Appending the rapids of a recall is a path that ends settled. -/
theorem planRecall_path (p : Planner K) (interTarget : Option (Axes Int32))
    (recallTarget : Axes Int32) (units : Units)
    (hexact : exact → p.RecallExact interTarget recallTarget) :
    PlanPath exact (true, p) (true, (p.planRecall interTarget recallTarget units).2) := by
  cases interTarget with
  | none =>
    refine planLine_path p recallTarget 0 units .unitsPerMin true fun h => ?_
    have h2 := (hexact h).2
    intro axis
    have hstay : landing p.config p.positionSteps p.positionSteps = p.positionSteps := by
      unfold landing
      split <;> rfl
    rw [Option.getD_none, hstay] at h2
    exact h2 axis
  | some target =>
    have hfirst := planLine_path p target 0 units .unitsPerMin true
      fun (h : exact) => (hexact h).1 target rfl
    unfold planRecall
    dsimp only
    cases hline : p.planLine target 0 units .unitsPerMin true with
    | mk result p' =>
      rw [hline] at hfirst
      cases result with
      | error e => exact hfirst
      | ok blocks =>
        obtain ⟨hpos, hconfig⟩ := planLine_landing hline
        have hsecond := planLine_path p' recallTarget 0 units .unitsPerMin true
          fun (h : exact) axis => by
            rw [hpos]
            exact (hexact h).2 axis
        dsimp only
        cases hline' : p'.planLine recallTarget 0 units .unitsPerMin true with
        | mk result' p'' =>
          rw [hline'] at hsecond
          cases result' <;> exact hfirst.trans hsecond

/-- The recall of a predefined position is a path that ends settled. -/
theorem planGoToPredefined_path (p : Planner K) (intermediate : AxisWords K)
    (units : Units) (distance : DistanceMode) (predefined : Axes K)
    (limits : Option (SoftLimits K))
    (hexact : exact → p.OpExact
      (.goToPredefined intermediate units distance predefined limits)) :
    PlanPath exact (true, p)
      (true, (p.planGoToPredefined intermediate units distance predefined limits).2) := by
  obtain ⟨violation, o, hcheck, hfalse⟩ := checkRecall_path p limits
    (p.intermediateTarget intermediate units distance) (p.recallTarget predefined)
    fun (h : exact) => (hexact h).1
  have hnote : PlanPath exact (true, p) (true, p.note o) := .single (.note true p o hfalse)
  simp only [planGoToPredefined, hcheck]
  cases violation with
  | true => exact hnote
  | false =>
    dsimp only
    split
    · exact hnote
    · exact hnote.trans (planRecall_path (p.note o) _ _ units fun h => (hexact h).2)

/-- **Every planning operation is a path of small steps** that starts and ends
settled. -/
theorem apply_path (p : Planner K) {op : PlannerOp K} (hplans : op.plans = true)
    (hexact : exact → p.OpExact op) : PlanPath exact (true, p) (true, p.apply op) := by
  cases op with
  | plan command limits => exact planCommandWithLimits_path p command limits hexact
  | jog jog limits => exact planJog_path p jog limits hexact
  | goToPredefined intermediate units distance predefined limits =>
    exact planGoToPredefined_path p intermediate units distance predefined limits hexact
  | resumeArc =>
    cases harc : p.arcInProgress with
    | none =>
      simp only [apply, resumeArc, harc]
      exact .refl
    | some arc =>
      simp only [apply, resumeArc, harc]
      exact enqueueArcChunk_path true p arc fun h => hexact h arc harc
  | abortArc => exact .single (.arc true p none)
  | popBlock | flushJogBlocks | flushQueue | syncPosition | setConfig | setWorkOffset =>
    cases hplans

end Planner

end Galdr
