import Galdr.PlannerFeasible

/-!
# Planning is all or nothing

A planning call that fails leaves the planner as it was (`apply_of_failure`), up to the note that a
step subtraction was made. A call that found no room can therefore be made again, with blocks taken
from the queue in between, until it succeeds: what it then does is what the one call does that
succeeded, and a relative target is the one it would have been the first time (`Waits.apply_eq`).
-/

namespace Galdr

variable {K : Type} [Field K] [LinearOrder K]

/-- What a result failed with. -/
def failureOf {α : Type} : Except PlannerError α → Option PlannerError
  | .ok _ => none
  | .error e => some e

namespace Planner

/-! ## Notes -/

section Note

theorem note_note (p : Planner K) (o o' : Bool) : (p.note o).note o' = p.note (o || o') := by
  unfold note
  rw [Bool.or_assoc]

theorem note_comm (p : Planner K) (o o' : Bool) : (p.note o).note o' = (p.note o').note o := by
  rw [note_note, note_note, Bool.or_comm]

theorem note_false (p : Planner K) : p.note false = p := by
  unfold note
  rw [Bool.or_false]

end Note

variable [FloorRing K] [Libm K]

/-- What an operation fails with, if it fails. -/
def failure (p : Planner K) : PlannerOp K → Option PlannerError
  | .plan command limits => failureOf (p.planCommandWithLimits command limits).1
  | .jog jog limits => failureOf (p.planJog jog limits).1
  | .goToPredefined intermediate units distance predefined limits =>
    failureOf (p.planGoToPredefined intermediate units distance predefined limits).1
  | .resumeArc => failureOf p.resumeArc.1
  | _ => none

/-! ## A failed call changes nothing -/

omit [FloorRing K] in
theorem not_noMove_of_buildBlock {p : Planner K} {target : Axes Int32} {feed : K} {units : Units}
    {feedMode : FeedMode} {rapid jog : Bool} {block : Block K}
    (h : p.buildBlock target feed units feedMode rapid jog = some block) :
    ¬NoMove p.config (p.stepDelta target) := by
  intro hnone
  rw [(buildBlock_eq_none_iff p target feed units feedMode rapid jog).2 hnone] at h
  cases h

omit [FloorRing K] in
/-- A line fails only for want of room, and is then not planned. -/
theorem planLine_of_error {p p' : Planner K} {target : Axes Int32} {feed : K} {units : Units}
    {feedMode : FeedMode} {rapid : Bool} {e : PlannerError}
    (h : p.planLine target feed units feedMode rapid = (.error e, p')) :
    ¬NoMove p.config (p.stepDelta target) ∧ blockQueueLen ≤ p.blocks.length
      ∧ ∃ o, p' = p.note o := by
  unfold planLine at h
  rcases enqueueMove_cases p target feed units feedMode rapid false with
    ⟨-, hmove⟩ | ⟨block, room, -, hmove⟩ | ⟨hfull, hmove⟩
  · rw [hmove] at h
    cases h
  · rw [hmove] at h
    cases h
  · have hbuilt : ¬NoMove p.config (p.stepDelta target) := by
      intro hnone
      have hnoBlock := (buildBlock_eq_none_iff p target feed units feedMode rapid false).2 hnone
      unfold enqueueMove at hmove
      rw [hnoBlock] at hmove
      cases hmove
    rw [hmove] at h
    exact ⟨hbuilt, hfull, _, (Prod.mk.inj h).2.symm⟩

omit [FloorRing K] in
/-- A move goes somewhere else. -/
theorem ne_of_not_noMove {p : Planner K} {target : Axes Int32}
    (h : ¬NoMove p.config (p.stepDelta target)) : target ≠ p.positionSteps := by
  rintro rfl
  refine h (.inr ?_)
  have hzero : p.stepDelta p.positionSteps = fun _ => 0 := funext fun axis => Int32.sub_self _
  rw [hzero]
  decide

omit [FloorRing K] in
/-- A line that is planned is no move, or is one more block up to its target. -/
theorem planLine_of_ok {p p' : Planner K} {target : Axes Int32} {feed : K} {units : Units}
    {feedMode : FeedMode} {rapid : Bool} {n : ℕ}
    (h : p.planLine target feed units feedMode rapid = (.ok n, p')) :
    (NoMove p.config (p.stepDelta target) ∧ ∃ o, p' = p.note o)
      ∨ target ≠ p.positionSteps ∧ p'.blocks.length = p.blocks.length + 1
        ∧ p'.positionSteps = target := by
  unfold planLine at h
  rcases enqueueMove_cases p target feed units feedMode rapid false with
    ⟨hnone, hmove⟩ | ⟨block, room, hbuild, hmove⟩ | ⟨-, hmove⟩
  · rw [hmove] at h
    exact .inl ⟨hnone, _, (Prod.mk.inj h).2.symm⟩
  · rw [hmove] at h
    obtain rfl := (Prod.mk.inj h).2
    refine .inr ⟨ne_of_not_noMove (not_noMove_of_buildBlock hbuild), ?_, rfl⟩
    show (forwardPass (reversePass _ (p.blocks ++ [block]))).length = _
    rw [length_forwardPass, length_reversePass, List.length_append]
    rfl
  · rw [hmove] at h
    cases (Prod.mk.inj h).1

omit [FloorRing K] in
/-- A recall that has room for its blocks does not fail. -/
theorem planRecall_of_room {p p' : Planner K} {interTarget : Option (Axes Int32)}
    {recallTarget : Axes Int32} {units : Units} {e : PlannerError}
    (hroom : p.blocks.length + blocksNeeded p.positionSteps interTarget recallTarget
      ≤ blockQueueLen) :
    p.planRecall interTarget recallTarget units ≠ (.error e, p') := by
  intro h
  unfold planRecall at h
  unfold blocksNeeded at hroom
  cases interTarget with
  | none =>
    obtain ⟨hmove, hfull, -⟩ := planLine_of_error h
    dsimp only at hroom
    rw [Option.getD_none, if_pos rfl, if_neg (ne_of_not_noMove hmove)] at hroom
    omega
  | some target =>
    dsimp only at h hroom
    rw [Option.getD_some] at hroom
    cases hfirst : p.planLine target 0 units .unitsPerMin true with
    | mk result p₁ =>
      rw [hfirst] at h
      cases result with
      | error e₁ =>
        obtain ⟨hmove, hfull, -⟩ := planLine_of_error hfirst
        rw [if_neg (ne_of_not_noMove hmove)] at hroom
        omega
      | ok n =>
        dsimp only at h
        cases hsecond : p₁.planLine recallTarget 0 units .unitsPerMin true with
        | mk result p₂ =>
          rw [hsecond] at h
          cases result with
          | ok m => cases h
          | error e₂ =>
            obtain ⟨hmove, hfull, -⟩ := planLine_of_error hsecond
            have hne := ne_of_not_noMove hmove
            rcases planLine_of_ok hfirst with ⟨hnone, o, rfl⟩ | ⟨htarget, hlength, hposition⟩
            · -- The first move was none, so that the second one goes somewhere else than it.
              have hother : recallTarget ≠ target := by
                rintro rfl
                exact hmove hnone
              rw [if_neg hother] at hroom
              have hfull' : blockQueueLen ≤ p.blocks.length := hfull
              omega
            · rw [hposition] at hne
              rw [if_neg htarget, if_neg hne] at hroom
              omega

/-- Feeding the segments of an arc does not fail: it stops when there is no room. -/
theorem exists_feedSegments_ok (remaining : ℕ) (arc : ArcInProgress K) (enqueued : ℕ)
    (p : Planner K) : ∃ progress q, feedSegments remaining arc enqueued p = (.ok progress, q) := by
  induction remaining generalizing arc enqueued p with
  | zero => exact ⟨_, _, rfl⟩
  | succ remaining ih =>
    unfold feedSegments
    split
    · rcases enqueueMove_cases p (arc.segTarget p.config) arc.segFeed arc.units arc.feedMode false
        false with ⟨-, hmove⟩ | ⟨block, room, -, hmove⟩ | ⟨-, hmove⟩
      · rw [hmove]
        exact ih _ _ _
      · rw [hmove]
        exact ih _ _ _
      · rw [hmove]
        exact ⟨_, _, rfl⟩
    · exact ⟨_, _, rfl⟩

theorem failureOf_enqueueArcChunk (p : Planner K) (arc : ArcInProgress K) :
    failureOf (p.enqueueArcChunk arc).1 = none := by
  obtain ⟨⟨arc', enqueued⟩, q, hfeed⟩ := exists_feedSegments_ok arc.remaining arc 0 p
  unfold enqueueArcChunk
  rw [hfeed]
  dsimp only
  split <;> rfl

/-- **A call that fails leaves the planner as it was.** -/
theorem apply_of_failure {p : Planner K} {op : PlannerOp K} {e : PlannerError}
    (h : p.failure op = some e) : ∃ o, p.apply op = p.note o := by
  cases op with
  | plan command limits =>
    unfold failure at h
    unfold apply
    cases command with
    | move rapid axes units distance feed feedMode machineCoords =>
      unfold planCommandWithLimits at h ⊢
      dsimp only at h ⊢
      obtain ⟨o, hcheck, -⟩ := checkTravel_eq p limits
        (p.resolveTarget axes units distance machineCoords)
      rw [hcheck] at h ⊢
      cases hforbids : p.forbids limits (p.resolveTarget axes units distance machineCoords) with
      | true => exact ⟨o, rfl⟩
      | false =>
        rw [hforbids] at h
        dsimp only at h ⊢
        cases hline : (p.note o).planLine (p.resolveTarget axes units distance machineCoords) feed
            units feedMode rapid with
        | mk result q =>
          rw [hline] at h
          cases result with
          | ok n => cases h
          | error e' =>
            obtain ⟨-, -, o', rfl⟩ := planLine_of_error hline
            exact ⟨o || o', note_note p o o'⟩
    | arc cw axes i j k plane units distance feed feedMode machineCoords =>
      unfold planCommandWithLimits at h ⊢
      dsimp only at h ⊢
      obtain ⟨o, hcheck, -⟩ := checkTravel_eq p limits
        (p.resolveTarget axes units distance machineCoords)
      rw [hcheck] at h ⊢
      cases hforbids : p.forbids limits (p.resolveTarget axes units distance machineCoords) with
      | true => exact ⟨o, rfl⟩
      | false =>
        rw [hforbids] at h
        dsimp only at h ⊢
        unfold planArc at h ⊢
        cases hgeometry : (p.note o).arcGeometry cw axes i j k plane units distance feed feedMode
            machineCoords with
        | none => exact ⟨o, rfl⟩
        | some arc =>
          rw [hgeometry] at h
          dsimp only at h
          rw [failureOf_enqueueArcChunk] at h
          cases h
    | _ => cases h
  | jog jog limits =>
    unfold failure at h
    unfold apply
    unfold planJog at h ⊢
    dsimp only at h ⊢
    set target := p.resolveTarget jog.axes jog.units jog.distanceMode jog.machineCoords
    obtain ⟨o, hcheck, -⟩ := checkTravel_eq p limits target
    rw [hcheck] at h ⊢
    cases hforbids : p.forbids limits target with
    | true => exact ⟨o, rfl⟩
    | false =>
      rw [hforbids] at h
      dsimp only at h ⊢
      rcases enqueueMove_cases (p.note o) target jog.feed jog.units .unitsPerMin false true with
        ⟨-, hmove⟩ | ⟨block, room, -, hmove⟩ | ⟨-, hmove⟩
      · rw [hmove] at h
        cases h
      · rw [hmove] at h
        cases h
      · rw [hmove]
        exact ⟨_, note_note p o _⟩
  | goToPredefined intermediate units distance predefined limits =>
    unfold failure at h
    unfold apply
    unfold planGoToPredefined at h ⊢
    dsimp only at h ⊢
    obtain ⟨violation, o, hcheck, -⟩ := checkRecall_path p limits
      (p.intermediateTarget intermediate units distance) (p.recallTarget predefined) (@False.elim _)
    rw [hcheck] at h ⊢
    cases violation with
    | true => exact ⟨o, rfl⟩
    | false =>
      dsimp only at h ⊢
      by_cases hfull : blockQueueLen < (p.note o).queuedLen + blocksNeeded (p.note o).positionSteps
          (p.intermediateTarget intermediate units distance) (p.recallTarget predefined)
      · rw [if_pos hfull]
        exact ⟨o, rfl⟩
      · rw [if_neg hfull] at h
        cases hrecall : (p.note o).planRecall (p.intermediateTarget intermediate units distance)
            (p.recallTarget predefined) units with
        | mk result q =>
          rw [hrecall] at h
          cases result with
          | ok n => cases h
          | error e' => exact absurd hrecall (planRecall_of_room (not_lt.1 hfull))
  | resumeArc =>
    unfold failure resumeArc at h
    cases harc : p.arcInProgress with
    | none =>
      rw [harc] at h
      cases h
    | some arc =>
      rw [harc] at h
      dsimp only at h
      rw [failureOf_enqueueArcChunk] at h
      cases h
  | _ => cases h

/-! ## What a call does does not depend on the notes -/

section Notes

variable (p : Planner K) (o : Bool)

/-- A result, with a note on its planner. -/
def noteResult {α : Type} (o : Bool) (r : α × Planner K) : α × Planner K := (r.1, r.2.note o)

omit [FloorRing K] [Libm K] in
theorem noteResult_mk {α : Type} (result : α) (q : Planner K) :
    noteResult o (result, q) = (result, q.note o) := rfl

omit [FloorRing K] in
theorem enqueueMove_note (target : Axes Int32) (feed : K) (units : Units) (feedMode : FeedMode)
    (rapid jog : Bool) :
    (p.note o).enqueueMove target feed units feedMode rapid jog
      = noteResult o (p.enqueueMove target feed units feedMode rapid jog) := by
  have hbuild : (p.note o).buildBlock target feed units feedMode rapid jog
      = p.buildBlock target feed units feedMode rapid jog := rfl
  have hover : (p.note o).deltaOverflows target = p.deltaOverflows target := rfl
  have hcomm := note_comm p o (p.deltaOverflows target)
  unfold enqueueMove
  rw [hbuild, hover]
  cases p.buildBlock target feed units feedMode rapid jog with
  | none => exact congrArg _ hcomm
  | some block =>
    unfold enqueue noteResult
    dsimp only [note]
    cases p.queue.pushBack block with
    | none =>
      dsimp only
      rw [Bool.or_right_comm]
    | some queue =>
      dsimp only
      rw [Bool.or_right_comm]

omit [FloorRing K] in
theorem planLine_note (target : Axes Int32) (feed : K) (units : Units) (feedMode : FeedMode)
    (rapid : Bool) :
    (p.note o).planLine target feed units feedMode rapid
      = noteResult o (p.planLine target feed units feedMode rapid) := by
  unfold planLine
  rw [enqueueMove_note]
  cases p.enqueueMove target feed units feedMode rapid false with
  | mk result q =>
    rw [noteResult_mk]
    cases result with
    | error e => rfl
    | ok n =>
      dsimp only
      split <;> rfl

theorem feedSegments_note (remaining : ℕ) (arc : ArcInProgress K) (enqueued : ℕ) :
    feedSegments remaining arc enqueued (p.note o)
      = noteResult o (feedSegments remaining arc enqueued p) := by
  induction remaining generalizing arc enqueued p with
  | zero => rfl
  | succ remaining ih =>
    unfold feedSegments
    have hlen : (p.note o).queue.len = p.queue.len := rfl
    have hconfig : (p.note o).config = p.config := rfl
    rw [hlen, hconfig, enqueueMove_note]
    split
    · cases p.enqueueMove (arc.segTarget p.config) arc.segFeed arc.units arc.feedMode false
        false with
      | mk result q =>
        rw [noteResult_mk]
        cases result with
        | ok n => exact ih q arc.advance (enqueued + n)
        | error e => cases e <;> rfl
    · rfl

theorem enqueueArcChunk_note (arc : ArcInProgress K) :
    (p.note o).enqueueArcChunk arc = noteResult o (p.enqueueArcChunk arc) := by
  unfold enqueueArcChunk
  rw [feedSegments_note]
  cases feedSegments arc.remaining arc 0 p with
  | mk result q =>
    rw [noteResult_mk]
    cases result with
    | error e => rfl
    | ok progress =>
      dsimp only
      split <;> rfl

omit [Libm K] in
theorem checkTravel_note (limits : Option (SoftLimits K)) (target : Axes Int32) :
    (p.note o).checkTravel limits target = noteResult o (p.checkTravel limits target) := by
  cases limits with
  | none => rfl
  | some limits => exact congrArg _ (note_comm p o _)

theorem planCommandWithLimits_note (command : PlannerCommand K)
    (limits : Option (SoftLimits K)) :
    (p.note o).planCommandWithLimits command limits
      = noteResult o (p.planCommandWithLimits command limits) := by
  cases command with
  | move rapid axes units distance feed feedMode machineCoords =>
    unfold planCommandWithLimits
    have htarget : (p.note o).resolveTarget axes units distance machineCoords
        = p.resolveTarget axes units distance machineCoords := rfl
    dsimp only
    rw [htarget, checkTravel_note]
    cases p.checkTravel limits (p.resolveTarget axes units distance machineCoords) with
    | mk violation q =>
      rw [noteResult_mk]
      cases violation with
      | true => rfl
      | false =>
        dsimp only
        rw [planLine_note]
        cases q.planLine (p.resolveTarget axes units distance machineCoords) feed units feedMode
          rapid with
        | mk result r =>
          rw [noteResult_mk]
          cases result <;> rfl
  | arc cw axes i j k plane units distance feed feedMode machineCoords =>
    unfold planCommandWithLimits
    have htarget : (p.note o).resolveTarget axes units distance machineCoords
        = p.resolveTarget axes units distance machineCoords := rfl
    dsimp only
    rw [htarget, checkTravel_note]
    cases p.checkTravel limits (p.resolveTarget axes units distance machineCoords) with
    | mk violation q =>
      rw [noteResult_mk]
      cases violation with
      | true => rfl
      | false =>
        dsimp only
        unfold planArc
        have hgeometry : (q.note o).arcGeometry cw axes i j k plane units distance feed feedMode
            machineCoords = q.arcGeometry cw axes i j k plane units distance feed feedMode
            machineCoords := rfl
        rw [hgeometry]
        cases q.arcGeometry cw axes i j k plane units distance feed feedMode machineCoords with
        | none => rfl
        | some arc => exact enqueueArcChunk_note q o arc
  | _ => rfl

theorem planJog_note (jog : JogCommand K) (limits : Option (SoftLimits K)) :
    (p.note o).planJog jog limits = noteResult o (p.planJog jog limits) := by
  unfold planJog
  have htarget : (p.note o).resolveTarget jog.axes jog.units jog.distanceMode jog.machineCoords
      = p.resolveTarget jog.axes jog.units jog.distanceMode jog.machineCoords := rfl
  dsimp only
  rw [htarget, checkTravel_note]
  cases p.checkTravel limits
    (p.resolveTarget jog.axes jog.units jog.distanceMode jog.machineCoords) with
  | mk violation q =>
    rw [noteResult_mk]
    cases violation with
    | true => rfl
    | false =>
      dsimp only
      rw [enqueueMove_note]
      cases q.enqueueMove (p.resolveTarget jog.axes jog.units jog.distanceMode jog.machineCoords)
        jog.feed jog.units .unitsPerMin false true with
      | mk result r =>
        rw [noteResult_mk]
        cases result with
        | error e => rfl
        | ok n =>
          dsimp only
          split <;> rfl

omit [FloorRing K] in
theorem planRecall_note (interTarget : Option (Axes Int32)) (recallTarget : Axes Int32)
    (units : Units) :
    (p.note o).planRecall interTarget recallTarget units
      = noteResult o (p.planRecall interTarget recallTarget units) := by
  cases interTarget with
  | none => exact planLine_note p o _ _ _ _ _
  | some target =>
    unfold planRecall
    dsimp only
    rw [planLine_note]
    cases p.planLine target 0 units .unitsPerMin true with
    | mk result q =>
      rw [noteResult_mk]
      cases result with
      | error e => rfl
      | ok n =>
        dsimp only
        rw [planLine_note]
        cases q.planLine recallTarget 0 units .unitsPerMin true with
        | mk result r =>
          rw [noteResult_mk]
          cases result <;> rfl

omit [Libm K] in
theorem checkRecall_note (limits : Option (SoftLimits K)) (interTarget : Option (Axes Int32))
    (recallTarget : Axes Int32) :
    (p.note o).checkRecall limits interTarget recallTarget
      = noteResult o (p.checkRecall limits interTarget recallTarget) := by
  cases interTarget with
  | none => exact checkTravel_note p o limits recallTarget
  | some target =>
    unfold checkRecall
    dsimp only
    rw [checkTravel_note]
    cases p.checkTravel limits target with
    | mk violation q =>
      rw [noteResult_mk]
      cases violation with
      | true => rfl
      | false => exact checkTravel_note q o limits recallTarget

theorem planGoToPredefined_note (intermediate : AxisWords K) (units : Units)
    (distance : DistanceMode) (predefined : Axes K) (limits : Option (SoftLimits K)) :
    (p.note o).planGoToPredefined intermediate units distance predefined limits
      = noteResult o (p.planGoToPredefined intermediate units distance predefined limits) := by
  unfold planGoToPredefined
  have hinter : (p.note o).intermediateTarget intermediate units distance
      = p.intermediateTarget intermediate units distance := rfl
  have hrecall : (p.note o).recallTarget predefined = p.recallTarget predefined := rfl
  dsimp only
  rw [hinter, hrecall, checkRecall_note]
  cases p.checkRecall limits (p.intermediateTarget intermediate units distance)
    (p.recallTarget predefined) with
  | mk violation q =>
    rw [noteResult_mk]
    cases violation with
    | true => rfl
    | false =>
      dsimp only
      have hlen : (q.note o).queuedLen = q.queuedLen := rfl
      have hposition : (q.note o).positionSteps = q.positionSteps := rfl
      rw [hlen, hposition, planRecall_note]
      split <;> rfl

/-- A planning call does not read the notes. -/
theorem apply_note {op : PlannerOp K} (hop : op.plans = true) :
    (p.note o).apply op = (p.apply op).note o := by
  cases op with
  | plan command limits => exact congrArg Prod.snd (planCommandWithLimits_note p o command limits)
  | jog jog limits => exact congrArg Prod.snd (planJog_note p o jog limits)
  | goToPredefined intermediate units distance predefined limits =>
    exact congrArg Prod.snd
      (planGoToPredefined_note p o intermediate units distance predefined limits)
  | resumeArc =>
    unfold apply resumeArc
    have harc : (p.note o).arcInProgress = p.arcInProgress := rfl
    rw [harc]
    cases p.arcInProgress with
    | none => rfl
    | some arc => exact congrArg Prod.snd (enqueueArcChunk_note p o arc)
  | abortArc => rfl
  | _ => cases hop

end Notes

/-! ## Again until it succeeds -/

/-- Blocks taken from the queue. -/
def pops (n : ℕ) (p : Planner K) : Planner K := (apply · .popBlock)^[n] p

/-- A call is made again and again, blocks being taken from the queue in between, as long as there
is no room. -/
inductive Waits (op : PlannerOp K) : Planner K → Planner K → Prop
  /-- It is not made again. -/
  | done (p : Planner K) : Waits op p p
  /-- It found no room. -/
  | again {p q : Planner K} (n : ℕ) (hfull : p.failure op = some .queueFull)
      (h : Waits op (pops n (p.apply op)) q) : Waits op p q

theorem apply_popBlock_note (p : Planner K) (o : Bool) :
    (p.note o).apply .popBlock = (p.apply .popBlock).note o := by
  unfold apply popBlock
  have hqueue : (p.note o).queue = p.queue := rfl
  rw [hqueue]
  cases p.queue.popFront <;> rfl

theorem pops_note (n : ℕ) (p : Planner K) (o : Bool) : pops n (p.note o) = (pops n p).note o := by
  induction n generalizing p with
  | zero => rfl
  | succ n ih =>
    unfold pops at ih ⊢
    rw [Function.iterate_succ_apply, Function.iterate_succ_apply, apply_popBlock_note, ih]

theorem pops_add (m n : ℕ) (p : Planner K) : pops m (pops n p) = pops (m + n) p :=
  (Function.iterate_add_apply _ m n p).symm

/-- Taking a block moves nothing. -/
theorem resolveTarget_pops (n : ℕ) (p : Planner K) (axes : AxisWords K) (units : Units)
    (distance : DistanceMode) (machineCoords : Bool) :
    (pops n p).resolveTarget axes units distance machineCoords
      = p.resolveTarget axes units distance machineCoords := by
  induction n generalizing p with
  | zero => rfl
  | succ n ih =>
    have hpop : (p.apply .popBlock).resolveTarget axes units distance machineCoords
        = p.resolveTarget axes units distance machineCoords := by
      unfold apply popBlock
      cases p.queue.popFront <;> rfl
    unfold pops at ih ⊢
    rw [Function.iterate_succ_apply, ih, hpop]

/-- Waiting only takes blocks from the queue. -/
theorem Waits.eq {op : PlannerOp K} {p q : Planner K} (h : Waits op p q) :
    ∃ n o, q = (pops n p).note o := by
  induction h with
  | done p => exact ⟨0, false, (note_false p).symm⟩
  | again n hfull _ ih =>
    obtain ⟨m, o, rfl⟩ := ih
    obtain ⟨o', happly⟩ := apply_of_failure hfull
    rw [happly, pops_note, pops_note, pops_add, note_note]
    exact ⟨m + n, o' || o, rfl⟩

/-- Two planners differ at most in whether a step subtraction has left its range. -/
structure SameState (p q : Planner K) : Prop where
  config : q.config = p.config
  queue : q.queue = p.queue
  positionSteps : q.positionSteps = p.positionSteps
  workOffsetMm : q.workOffsetMm = p.workOffsetMm
  prevUnitVec : q.prevUnitVec = p.prevUnitVec
  prevNominalSpeedSq : q.prevNominalSpeedSq = p.prevNominalSpeedSq
  headBusy : q.headBusy = p.headBusy
  arcInProgress : q.arcInProgress = p.arcInProgress

omit [FloorRing K] [Libm K] in
theorem sameState_note (p : Planner K) (o : Bool) : SameState p (p.note o) :=
  ⟨rfl, rfl, rfl, rfl, rfl, rfl, rfl, rfl⟩

/-- **Planning is all or nothing.** A call that fails leaves the planner as it was. A call that is
made again until there is room does what one call does after so many blocks have been taken, with
the target that it would have had at first. -/
theorem planning_all_or_nothing (p : Planner K) {op : PlannerOp K} (hop : op.plans = true) :
    (∀ e, p.failure op = some e → SameState p (p.apply op))
      ∧ ∀ q, Waits op p q → ∃ n, SameState ((pops n p).apply op) (q.apply op)
        ∧ ∀ axes units distance machineCoords, q.resolveTarget axes units distance machineCoords
          = p.resolveTarget axes units distance machineCoords := by
  refine ⟨fun e he => ?_, fun q hwaits => ?_⟩
  · obtain ⟨o, happly⟩ := apply_of_failure he
    rw [happly]
    exact sameState_note p o
  · obtain ⟨n, o, rfl⟩ := hwaits.eq
    refine ⟨n, ?_, fun axes units distance machineCoords => ?_⟩
    · rw [apply_note _ _ hop]
      exact sameState_note _ o
    · exact resolveTarget_pops n p axes units distance machineCoords

/-- A planner whose queue is full. -/
def fullPlanner : Planner ℚ :=
  { new benchConfig with
    queue := ⟨List.replicate 32 (Block.placeholder ![1, 0, 0, 0]), by
      rw [List.length_replicate]; exact le_rfl⟩ }

/-- A rapid that finds no room, and finds it when a block has been taken. -/
theorem planning_all_or_nothing_full :
    fullPlanner.failure (.plan (.moveX true 10 0) none) = some .queueFull
      ∧ SameState fullPlanner (fullPlanner.apply (.plan (.moveX true 10 0) none))
      ∧ ∃ n, SameState ((pops n fullPlanner).apply (.plan (.moveX true 10 0) none))
        ((pops 1 (fullPlanner.apply (.plan (.moveX true 10 0) none))).apply
          (.plan (.moveX true 10 0) none)) := by
  have hfull : fullPlanner.failure (.plan (.moveX true 10 0) none) = some .queueFull := by
    decide +kernel
  obtain ⟨hsame, hretry⟩ :=
    @planning_all_or_nothing _ _ _ _ _ fullPlanner (.plan (.moveX true 10 0) none) rfl
  obtain ⟨n, happly, -⟩ := hretry _ (.again 1 hfull (.done _))
  exact ⟨hfull, hsame _ hfull, n, happly⟩

end Planner

end Galdr
