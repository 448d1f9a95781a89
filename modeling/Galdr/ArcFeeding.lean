import Galdr.PlannerRetry
import Galdr.SoftLimits

/-!
# Feeding an arc in chunks

An arc has more chords than the queue has room for, so its first chunk is fed when the line is
planned and the others when the executor has taken blocks. What a queue without a bound would hold
is known from the start (`arcBlocks`). At every moment the blocks that were taken and those that
are queued are the ones from before the arc and those of its first chords, each once and in order,
and the chords still to feed are the rest (`Midway`); only entry speeds differ, which settling
gives to the whole queue. The planner itself has no guard against another line in between: whoever
resumes the arc has to hold such lines back.
-/

namespace Galdr

variable {K : Type} [Field K] [LinearOrder K]

namespace Planner

/-! ## A queue without a bound -/

/-- The planner past a block that no queue of its own holds. -/
def past (p : Planner K) (target : Axes Int32) (block : Block K) : Planner K :=
  { p with
    positionSteps := target
    prevUnitVec := block.unitVec
    prevNominalSpeedSq := block.nominalSpeedSq }

section Unbounded

variable [FloorRing K] [Libm K]

/-- The blocks of so many chords of an arc, in a queue without a bound. -/
def arcBlocks : ℕ → ArcInProgress K → Planner K → List (Block K)
  | 0, _, _ => []
  | chords + 1, arc, p =>
    let target := arc.segTarget p.config
    match p.buildBlock target arc.segFeed arc.units arc.feedMode false false with
    | none => arcBlocks chords arc.advance p
    | some block => block :: arcBlocks chords arc.advance (p.past target block)

/-- Where the planner is after so many chords of an arc. -/
def chordLanding : ℕ → ArcInProgress K → PlannerConfig K → Axes Int32 → Axes Int32
  | 0, _, _, pos => pos
  | chords + 1, arc, config, pos =>
    chordLanding chords arc.advance config (landing config pos (arc.segTarget config))

end Unbounded

/-- What the next block is built from is the same. -/
structure BuildsAlike (p q : Planner K) : Prop where
  config : q.config = p.config
  positionSteps : q.positionSteps = p.positionSteps
  prevUnitVec : q.prevUnitVec = p.prevUnitVec
  prevNominalSpeedSq : q.prevNominalSpeedSq = p.prevNominalSpeedSq

theorem BuildsAlike.past {p q : Planner K} (h : BuildsAlike p q) (target : Axes Int32)
    (block : Block K) : BuildsAlike (p.past target block) (q.past target block) :=
  ⟨h.config, rfl, rfl, rfl⟩

section Chords

variable [Libm K]

theorem BuildsAlike.buildBlock_eq {p q : Planner K} (h : BuildsAlike p q) (target : Axes Int32)
    (feed : K) (units : Units) (feedMode : FeedMode) (rapid jog : Bool) :
    q.buildBlock target feed units feedMode rapid jog
      = p.buildBlock target feed units feedMode rapid jog := by
  unfold buildBlock stepDelta junctionSpeedSq
  rw [h.config, h.positionSteps, h.prevUnitVec, h.prevNominalSpeedSq]

variable [FloorRing K]

theorem BuildsAlike.arcBlocks_eq {p q : Planner K} (h : BuildsAlike p q) (chords : ℕ)
    (arc : ArcInProgress K) : arcBlocks chords arc q = arcBlocks chords arc p := by
  induction chords generalizing arc p q with
  | zero => rfl
  | succ chords ih =>
    unfold arcBlocks
    dsimp only
    rw [h.config, h.buildBlock_eq]
    cases p.buildBlock (arc.segTarget p.config) arc.segFeed arc.units arc.feedMode false false with
    | none => exact ih h arc.advance
    | some block => exact congrArg (block :: ·) (ih (h.past _ block) arc.advance)

omit [Field K] [LinearOrder K] [Libm K] [FloorRing K] in
theorem advance_nextSeg (arc : ArcInProgress K) (fed : ℕ) :
    { arc.advance with nextSeg := arc.advance.nextSeg + fed }
      = { arc with nextSeg := arc.nextSeg + (fed + 1) } := by
  unfold ArcInProgress.advance
  rw [Nat.add_assoc, Nat.add_comm 1 fed]

theorem chordLanding_add (m n : ℕ) (arc : ArcInProgress K) (config : PlannerConfig K)
    (pos : Axes Int32) :
    chordLanding (m + n) arc config pos = chordLanding n { arc with nextSeg := arc.nextSeg + m }
      config (chordLanding m arc config pos) := by
  induction m generalizing arc pos with
  | zero =>
    rw [Nat.zero_add]
    rfl
  | succ m ih =>
    rw [Nat.add_right_comm, ← advance_nextSeg]
    exact ih arc.advance _

/-! ## One chunk -/

/-- **A chunk feeds the next chords.** It stops at the end of the arc or where the queue is full,
what it appends are the blocks of so many chords, and the rest of the arc goes on from there. -/
theorem feedSegments_chunk (remaining : ℕ) (arc : ArcInProgress K) (enqueued : ℕ)
    (p : Planner K) :
    ∃ fed total q,
      feedSegments remaining arc enqueued p
          = (.ok ({ arc with nextSeg := arc.nextSeg + fed }, total), q)
        ∧ fed ≤ remaining
        ∧ (fed < remaining → blockQueueLen ≤ q.blocks.length)
        ∧ q.blocks = p.blocks ++ arcBlocks fed arc p
        ∧ q.config = p.config
        ∧ q.positionSteps = chordLanding fed arc p.config p.positionSteps
        ∧ ∀ rest, arcBlocks (fed + rest) arc p = arcBlocks fed arc p
          ++ arcBlocks rest { arc with nextSeg := arc.nextSeg + fed } q := by
  induction remaining generalizing arc enqueued p with
  | zero =>
    exact ⟨0, enqueued, p, rfl, le_rfl, fun h => absurd h (Nat.lt_irrefl 0),
      (List.append_nil _).symm, rfl, rfl, fun rest => by rw [Nat.zero_add]; rfl⟩
  | succ remaining ih =>
    by_cases hroom : p.blocks.length < blockQueueLen
    · -- One chord is fed, whether or not it has a block, and the others follow it.
      have hlen : p.queue.len < blockQueueLen := hroom
      unfold feedSegments
      rw [if_pos hlen]
      rcases enqueueMove_cases p (arc.segTarget p.config) arc.segFeed arc.units arc.feedMode false
        false with ⟨hnone, hmove⟩ | ⟨block, room, hsome, hmove⟩ | ⟨hfull, -⟩
      · have hbuild := (buildBlock_eq_none_iff p (arc.segTarget p.config) arc.segFeed arc.units
          arc.feedMode false false).2 hnone
        have halike : BuildsAlike p (p.note (p.deltaOverflows (arc.segTarget p.config))) :=
          ⟨rfl, rfl, rfl, rfl⟩
        have hchord : ∀ n, arcBlocks (n + 1) arc p
            = arcBlocks n arc.advance (p.note (p.deltaOverflows (arc.segTarget p.config))) := by
          intro n
          rw [halike.arcBlocks_eq]
          simp only [arcBlocks, hbuild]
        obtain ⟨fed, total, q, hrun, hle, hfull, hblocks, hconfig, hposition, hrest⟩ :=
          ih arc.advance (enqueued + 0)
          (p.note (p.deltaOverflows (arc.segTarget p.config)))
        have hland : landing p.config p.positionSteps (arc.segTarget p.config)
            = p.positionSteps := if_pos hnone
        refine ⟨fed + 1, total, q, ?_, Nat.succ_le_succ hle,
          fun h => hfull (Nat.succ_lt_succ_iff.1 h), ?_, hconfig, ?_, fun rest => ?_⟩
        · rw [hmove, ← advance_nextSeg]
          exact hrun
        · rw [hblocks, hchord]
          rfl
        · unfold chordLanding
          rw [hland]
          exact hposition
        · rw [Nat.add_right_comm, hchord, hchord, ← advance_nextSeg]
          exact hrest rest
      · have halike : BuildsAlike (p.past (arc.segTarget p.config) block)
            ((p.note (p.deltaOverflows (arc.segTarget p.config))).append
              (arc.segTarget p.config) block room) := ⟨rfl, rfl, rfl, rfl⟩
        have hchord : ∀ n, arcBlocks (n + 1) arc p = block :: arcBlocks n arc.advance
            ((p.note (p.deltaOverflows (arc.segTarget p.config))).append
              (arc.segTarget p.config) block room) := by
          intro n
          rw [halike.arcBlocks_eq]
          simp only [arcBlocks, hsome]
        obtain ⟨fed, total, q, hrun, hle, hfull, hblocks, hconfig, hposition, hrest⟩ :=
          ih arc.advance (enqueued + 1)
          ((p.note (p.deltaOverflows (arc.segTarget p.config))).append
            (arc.segTarget p.config) block room)
        have hmoves : ¬NoMove p.config (p.stepDelta (arc.segTarget p.config)) := fun hnone => by
          rw [(buildBlock_eq_none_iff p (arc.segTarget p.config) arc.segFeed arc.units
            arc.feedMode false false).2 hnone] at hsome
          cases hsome
        have hland : landing p.config p.positionSteps (arc.segTarget p.config)
            = arc.segTarget p.config := if_neg hmoves
        refine ⟨fed + 1, total, q, ?_, Nat.succ_le_succ hle,
          fun h => hfull (Nat.succ_lt_succ_iff.1 h), ?_, hconfig, ?_, fun rest => ?_⟩
        · rw [hmove, ← advance_nextSeg]
          exact hrun
        · rw [hblocks, hchord]
          exact List.append_assoc p.blocks [block] _
        · unfold chordLanding
          rw [hland]
          exact hposition
        · rw [Nat.add_right_comm, hchord, hchord, ← advance_nextSeg]
          exact congrArg (block :: ·) (hrest rest)
      · exact absurd hroom (not_lt.2 hfull)
    · have hfeed : feedSegments (remaining + 1) arc enqueued p = (.ok (arc, enqueued), p) :=
        if_neg hroom
      exact ⟨0, enqueued, p, hfeed, Nat.zero_le _, fun _ => not_lt.1 hroom,
        (List.append_nil _).symm, rfl, rfl, fun rest => by rw [Nat.zero_add]; rfl⟩

/-! ## The whole arc -/

/-- The entries of a list of blocks are not compared. -/
abbrev cores (blocks : List (Block K)) : List (Block K) := blocks.map (Block.withEntry · 0)

/-- So many chords of the arc have been fed since it was planned on `p`; `out` are the blocks that
were taken from the queue. -/
structure Midway (p : Planner K) (arc : ArcInProgress K) (fed : ℕ) (out : List (Block K))
    (q : Planner K) : Prop where
  /-- The arc was planned from its first chord on. -/
  first : arc.nextSeg = 1
  /-- There are no more chords than the arc has. -/
  le : fed ≤ arc.segments
  /-- The arc goes on behind them, and is done when there is no other. -/
  arcInProgress : q.arcInProgress
    = if fed = arc.segments then none else some { arc with nextSeg := fed + 1 }
  /-- What was taken and what is queued are the blocks from before, and those of the chords. -/
  blocks : cores (out ++ q.blocks) = cores (p.blocks ++ arcBlocks fed arc p)
  /-- The settings are the same. -/
  config : q.config = p.config
  /-- It stands at the end of the last chord that was fed. -/
  position : q.positionSteps = chordLanding fed arc p.config p.positionSteps
  /-- The other chords have the blocks that they would have had. -/
  rest : ∀ chords, arcBlocks (fed + chords) arc p
    = arcBlocks fed arc p ++ arcBlocks chords { arc with nextSeg := fed + 1 } q

/-- What happens while an arc is fed. -/
inductive FeedStep
  /-- The executor takes a block. -/
  | popBlock
  /-- More of the arc is fed. -/
  | resumeArc
  deriving DecidableEq

/-- One such step: the block that is taken, and the planner. -/
def feedStep (q : Planner K) : FeedStep → List (Block K) × Planner K
  | .popBlock =>
    match q.popBlock with
    | none => ([], q)
    | some (block, q') => ([block], q')
  | .resumeArc => ([], q.resumeArc.2)

/-- Such steps in a row. -/
def feedRun : List FeedStep → Planner K → List (Block K) × Planner K
  | [], q => ([], q)
  | step :: steps, q =>
    let (taken, q') := q.feedStep step
    let (out, q'') := feedRun steps q'
    (taken ++ out, q'')

theorem recalculate_midway {p : Planner K} {arc : ArcInProgress K} {fed : ℕ}
    {out : List (Block K)} {q : Planner K} (hfirst : arc.nextSeg = 1) (hle : fed ≤ arc.segments)
    (hblocks : cores (out ++ q.blocks) = cores (p.blocks ++ arcBlocks fed arc p))
    (hconfig : q.config = p.config)
    (hposition : q.positionSteps = chordLanding fed arc p.config p.positionSteps)
    (hrest : ∀ chords, arcBlocks (fed + chords) arc p
      = arcBlocks fed arc p ++ arcBlocks chords { arc with nextSeg := fed + 1 } q)
    {arc' : Option (ArcInProgress K)}
    (harc : arc' = if fed = arc.segments then none else some { arc with nextSeg := fed + 1 }) :
    Midway p arc fed out { q.recalculate with arcInProgress := arc' } := by
  refine ⟨hfirst, hle, harc, ?_, hconfig, hposition, fun chords => ?_⟩
  · have hcore : cores q.recalculate.blocks = cores q.blocks := core_recalculate q
    rw [cores, List.map_append] at hblocks ⊢
    rw [← hblocks]
    exact congrArg (_ ++ ·) hcore
  · have halike : BuildsAlike q { q.recalculate with arcInProgress := arc' } :=
      ⟨rfl, rfl, rfl, rfl⟩
    rw [halike.arcBlocks_eq]
    exact hrest chords

/-- Feeding a chunk goes on along the arc, and further if there is room. -/
theorem enqueueArcChunk_midway {p : Planner K} {arc : ArcInProgress K} {fed : ℕ}
    {out : List (Block K)} {q : Planner K} (hfirst : arc.nextSeg = 1) (hlt : fed ≤ arc.segments)
    (hblocks : cores (out ++ q.blocks) = cores (p.blocks ++ arcBlocks fed arc p))
    (hconfig : q.config = p.config)
    (hposition : q.positionSteps = chordLanding fed arc p.config p.positionSteps)
    (hrest : ∀ chords, arcBlocks (fed + chords) arc p
      = arcBlocks fed arc p ++ arcBlocks chords { arc with nextSeg := fed + 1 } q) :
    ∃ outcome fed' q', q.enqueueArcChunk { arc with nextSeg := fed + 1 } = (.ok outcome, q')
      ∧ Midway p arc fed' out q' ∧ fed ≤ fed'
      ∧ (fed' < arc.segments → blockQueueLen ≤ q'.blocks.length)
      ∧ (fed < arc.segments → q.blocks.length < blockQueueLen → fed < fed') := by
  obtain ⟨n, total, q', hfeed, hle, hfull, hqueue, hconfig', hlanding, hgoes⟩ :=
    feedSegments_chunk (ArcInProgress.remaining { arc with nextSeg := fed + 1 })
      { arc with nextSeg := fed + 1 } 0 q
  have hremaining : ArcInProgress.remaining { arc with nextSeg := fed + 1 } = arc.segments - fed :=
    Nat.add_sub_add_right _ 1 _
  rw [hremaining] at hle hfull
  have hle' : fed + n ≤ arc.segments := by omega
  have hfull' : fed + n < arc.segments → blockQueueLen ≤ q'.recalculate.blocks.length := by
    intro h
    rw [blocks_recalculate, length_forwardPass, length_reversePass]
    exact hfull (Nat.lt_sub_iff_add_lt'.2 h)
  have hprogress : fed < arc.segments → q.blocks.length < blockQueueLen → 0 < n := by
    intro h hroom
    by_contra hzero
    obtain rfl : n = 0 := Nat.eq_zero_of_not_pos hzero
    have hnone := hfull (Nat.sub_pos_of_lt h)
    rw [hqueue] at hnone
    exact absurd (hnone.trans_eq (congrArg List.length (List.append_nil _))) (not_le.2 hroom)
  have hnext : fed + 1 + n = fed + n + 1 := Nat.add_right_comm fed 1 n
  dsimp only at hfeed hgoes
  rw [hnext] at hfeed hgoes
  have hblocks' : cores (out ++ q'.blocks) = cores (p.blocks ++ arcBlocks (fed + n) arc p) := by
    rw [hqueue, hrest n, ← List.append_assoc, ← List.append_assoc]
    unfold cores at hblocks ⊢
    rw [List.map_append, hblocks, ← List.map_append]
  have hrest' : ∀ chords, arcBlocks (fed + n + chords) arc p = arcBlocks (fed + n) arc p
      ++ arcBlocks chords { arc with nextSeg := fed + n + 1 } q' := by
    intro chords
    rw [Nat.add_assoc, hrest (n + chords), hrest n, hgoes chords, List.append_assoc]
  have hposition' : q'.positionSteps
      = chordLanding (fed + n) arc p.config p.positionSteps := by
    rw [hlanding, hposition, hconfig, chordLanding_add, hfirst, Nat.add_comm 1 fed]
  unfold enqueueArcChunk
  rw [hfeed]
  dsimp only
  by_cases hdone : arc.segments < fed + n + 1
  · rw [if_pos hdone]
    refine ⟨_, fed + n, _, rfl, recalculate_midway hfirst hle' hblocks'
      (hconfig'.trans hconfig) hposition' hrest' ?_,
      Nat.le_add_right fed n, hfull', fun h hroom => ?_⟩
    · rw [if_pos (le_antisymm hle' (Nat.lt_succ_iff.1 hdone))]
    · exact Nat.lt_add_of_pos_right (hprogress h hroom)
  · rw [if_neg hdone]
    refine ⟨_, fed + n, _, rfl, recalculate_midway hfirst hle' hblocks'
      (hconfig'.trans hconfig) hposition' hrest' ?_,
      Nat.le_add_right fed n, hfull', fun h hroom => ?_⟩
    · rw [if_neg (fun h : fed + n = arc.segments => hdone (h ▸ Nat.lt_succ_self _))]
    · exact Nat.lt_add_of_pos_right (hprogress h hroom)

/-- Taking a block moves it from the queue to those that were taken. -/
theorem Midway.popBlock {p : Planner K} {arc : ArcInProgress K} {fed : ℕ} {out : List (Block K)}
    {q q' : Planner K} {block : Block K} (h : Midway p arc fed out q)
    (hpop : q.popBlock = some (block, q')) : Midway p arc fed (out ++ [block]) q' := by
  obtain ⟨rest, hqueue, rfl⟩ := (popBlock_eq_some_iff q q' block).1 hpop
  refine ⟨h.first, h.le, h.arcInProgress, ?_, h.config, h.position, fun chords => ?_⟩
  · rw [← h.blocks, hqueue, List.append_assoc]
    rfl
  · have halike : BuildsAlike q { q with queue := rest, headBusy := !rest.isEmpty } :=
      ⟨rfl, rfl, rfl, rfl⟩
    rw [halike.arcBlocks_eq]
    exact h.rest chords

/-- **Resuming never fails, and goes on whenever a slot is free.** -/
theorem Midway.resumeArc {p : Planner K} {arc : ArcInProgress K} {fed : ℕ} {out : List (Block K)}
    {q : Planner K} (h : Midway p arc fed out q) :
    (∃ outcome, q.resumeArc.1 = .ok outcome) ∧ ∃ fed', Midway p arc fed' out q.resumeArc.2
      ∧ (fed < arc.segments → q.queuedLen < blockQueueLen → fed < fed') := by
  by_cases hdone : fed = arc.segments
  · have hnone : q.arcInProgress = none := h.arcInProgress.trans (if_pos hdone)
    have hresume : q.resumeArc = (.ok (.queued 0), q) := by
      unfold Planner.resumeArc
      rw [hnone]
    rw [hresume]
    exact ⟨⟨_, rfl⟩, fed, h, fun hlt => absurd hdone hlt.ne⟩
  · have hsome : q.arcInProgress = some { arc with nextSeg := fed + 1 } :=
      h.arcInProgress.trans (if_neg hdone)
    have hresume : q.resumeArc = q.enqueueArcChunk { arc with nextSeg := fed + 1 } := by
      unfold Planner.resumeArc
      rw [hsome]
    obtain ⟨outcome, fed', q', hchunk, hmidway, -, -, hprogress⟩ :=
      enqueueArcChunk_midway h.first h.le h.blocks h.config h.position h.rest
    rw [hresume, hchunk]
    exact ⟨⟨outcome, rfl⟩, fed', hmidway, hprogress⟩

/-- A step keeps the arc's place. -/
theorem Midway.feedStep {p : Planner K} {arc : ArcInProgress K} {fed : ℕ} {out : List (Block K)}
    {q : Planner K} (h : Midway p arc fed out q) (step : FeedStep) :
    ∃ fed', Midway p arc fed' (out ++ (q.feedStep step).1) (q.feedStep step).2 := by
  cases step with
  | popBlock =>
    unfold Planner.feedStep
    dsimp only
    cases hpop : q.popBlock with
    | none =>
      refine ⟨fed, ?_⟩
      dsimp only
      rw [List.append_nil]
      exact h
    | some popped => exact ⟨fed, h.popBlock hpop⟩
  | resumeArc =>
    obtain ⟨-, fed', hmidway, -⟩ := h.resumeArc
    refine ⟨fed', ?_⟩
    unfold Planner.feedStep
    dsimp only
    rw [List.append_nil]
    exact hmidway

/-- Any steps keep the arc's place. -/
theorem Midway.feedRun {p : Planner K} {arc : ArcInProgress K} (steps : List FeedStep) {fed : ℕ}
    {out : List (Block K)} {q : Planner K} (h : Midway p arc fed out q) :
    ∃ fed', Midway p arc fed' (out ++ (Planner.feedRun steps q).1) (Planner.feedRun steps q).2 := by
  induction steps generalizing fed out q with
  | nil =>
    refine ⟨fed, ?_⟩
    unfold Planner.feedRun
    rw [List.append_nil]
    exact h
  | cons step steps ih =>
    obtain ⟨fed', hstep⟩ := h.feedStep step
    obtain ⟨fed'', hrun⟩ := ih hstep
    refine ⟨fed'', ?_⟩
    rw [List.append_assoc] at hrun
    exact hrun

/-- Planning an arc feeds its first chunk. -/
theorem planArc_midway {p : Planner K} {cw : Bool} {axes : AxisWords K} {i j k : Option K}
    {plane : Plane} {units : Units} {distance : DistanceMode} {feed : K} {feedMode : FeedMode}
    {machineCoords : Bool} {limits : Option (SoftLimits K)} {outcome : PlannerOutcome K}
    {p₁ : Planner K}
    (h : p.planCommandWithLimits (.arc cw axes i j k plane units distance feed feedMode
      machineCoords) limits = (.ok outcome, p₁)) :
    ∃ arc, p.arcGeometry cw axes i j k plane units distance feed feedMode machineCoords = some arc
      ∧ ∃ fed, Midway p arc fed [] p₁
        ∧ (fed < arc.segments → blockQueueLen ≤ p₁.blocks.length) := by
  unfold planCommandWithLimits at h
  dsimp only at h
  obtain ⟨o, hcheck, -⟩ := checkTravel_eq p limits
    (p.resolveTarget axes units distance machineCoords)
  rw [hcheck] at h
  cases hforbids : p.forbids limits (p.resolveTarget axes units distance machineCoords) with
  | true =>
    rw [hforbids] at h
    cases h
  | false =>
    rw [hforbids] at h
    dsimp only at h
    unfold planArc at h
    have hnote : (p.note o).arcGeometry cw axes i j k plane units distance feed feedMode
        machineCoords = p.arcGeometry cw axes i j k plane units distance feed feedMode
          machineCoords := rfl
    rw [hnote] at h
    cases hgeometry : p.arcGeometry cw axes i j k plane units distance feed feedMode
        machineCoords with
    | none =>
      rw [hgeometry] at h
      cases h
    | some arc =>
      rw [hgeometry] at h
      have hone : arc.nextSeg = 1 := (arcGeometry_outside hgeometry).2.1
      have hfirst : { arc with nextSeg := 0 + 1 } = arc := by
        rw [Nat.zero_add, ← hone]
      have hrest : ∀ chords, arcBlocks (0 + chords) arc p = arcBlocks 0 arc p
          ++ arcBlocks chords { arc with nextSeg := 0 + 1 } (p.note o) := by
        intro chords
        have halike : BuildsAlike p (p.note o) := ⟨rfl, rfl, rfl, rfl⟩
        rw [halike.arcBlocks_eq, hfirst, Nat.zero_add]
        rfl
      have hblocks : cores ([] ++ (p.note o).blocks) = cores (p.blocks ++ arcBlocks 0 arc p) :=
        congrArg cores (List.append_nil _).symm
      obtain ⟨outcome', fed, q', hchunk, hmidway, -, hfull, -⟩ :=
        enqueueArcChunk_midway hone (Nat.zero_le _) hblocks rfl rfl hrest
      rw [hfirst] at hchunk
      obtain rfl : q' = p₁ := congrArg Prod.snd (hchunk.symm.trans h)
      exact ⟨arc, rfl, fed, hmidway, hfull⟩

/-- An arc with a geometry is accepted. -/
theorem planCommand_arc_ok {p : Planner K} {cw : Bool} {axes : AxisWords K} {i j k : Option K}
    {plane : Plane} {units : Units} {distance : DistanceMode} {feed : K} {feedMode : FeedMode}
    {machineCoords : Bool} {arc : ArcInProgress K}
    (h : p.arcGeometry cw axes i j k plane units distance feed feedMode machineCoords
      = some arc) :
    ∃ outcome p₁, p.planCommandWithLimits (.arc cw axes i j k plane units distance feed feedMode
      machineCoords) none = (.ok outcome, p₁) := by
  obtain ⟨⟨arc', enqueued⟩, q, hfeed⟩ := exists_feedSegments_ok arc.remaining arc 0 p
  unfold planCommandWithLimits
  dsimp only [checkTravel]
  unfold planArc
  rw [h]
  dsimp only
  unfold enqueueArcChunk
  rw [hfeed]
  dsimp only
  split
  · exact ⟨_, _, rfl⟩
  · exact ⟨_, _, rfl⟩

/-- There is at most one block for each chord. -/
theorem length_arcBlocks_le (chords : ℕ) (arc : ArcInProgress K) (p : Planner K) :
    (arcBlocks chords arc p).length ≤ chords := by
  induction chords generalizing arc p with
  | zero => exact le_rfl
  | succ chords ih =>
    unfold arcBlocks
    dsimp only
    cases p.buildBlock (arc.segTarget p.config) arc.segFeed arc.units arc.feedMode false false with
    | none => exact (ih _ _).trans (Nat.le_succ _)
    | some block => exact Nat.succ_le_succ (ih _ _)

/-- **Feeding in chunks is feeding at once.** After an arc was accepted, and whatever blocks are
taken and however often it is resumed: so many of its chords have been fed, each once and in
order; the blocks that were taken and those in the queue are those of before and the ones that a
queue without a bound would hold of these chords, but for entry speeds; the arc goes on behind
them, and is done when they are all. Resuming it does not fail, and feeds a chord at least if a
slot is free. -/
theorem chunked_feeding {p : Planner K} {cw : Bool} {axes : AxisWords K} {i j k : Option K}
    {plane : Plane} {units : Units} {distance : DistanceMode} {feed : K} {feedMode : FeedMode}
    {machineCoords : Bool} {limits : Option (SoftLimits K)} {outcome : PlannerOutcome K}
    {p₁ : Planner K}
    (h : p.planCommandWithLimits (.arc cw axes i j k plane units distance feed feedMode
      machineCoords) limits = (.ok outcome, p₁)) :
    ∃ arc, p.arcGeometry cw axes i j k plane units distance feed feedMode machineCoords = some arc
      ∧ ∀ steps, ∃ fed, Midway p arc fed (feedRun steps p₁).1 (feedRun steps p₁).2
        ∧ (∃ outcome, (feedRun steps p₁).2.resumeArc.1 = .ok outcome)
        ∧ ∃ fed', Midway p arc fed' (feedRun steps p₁).1 (feedRun steps p₁).2.resumeArc.2
          ∧ (fed < arc.segments → (feedRun steps p₁).2.queuedLen < blockQueueLen → fed < fed') := by
  obtain ⟨arc, hgeometry, fed, hmidway, -⟩ := planArc_midway h
  refine ⟨arc, hgeometry, fun steps => ?_⟩
  obtain ⟨fed', hrun⟩ := hmidway.feedRun steps
  exact ⟨fed', hrun, hrun.resumeArc⟩

/-! ## A line in between -/

/-- A full queue takes no chord. -/
theorem enqueueArcChunk_full {q : Planner K} {arc : ArcInProgress K}
    (hfull : blockQueueLen ≤ q.blocks.length) (hmore : arc.nextSeg ≤ arc.segments) :
    q.enqueueArcChunk arc
      = (.ok (.arcPending 0), { q.recalculate with arcInProgress := some arc }) := by
  have hlen : ¬q.queue.len < blockQueueLen := not_lt.2 hfull
  have hremaining : arc.remaining = (arc.segments - arc.nextSeg) + 1 := by
    unfold ArcInProgress.remaining
    omega
  unfold enqueueArcChunk
  rw [hremaining]
  unfold feedSegments
  rw [if_neg hlen]
  dsimp only
  rw [if_neg (not_lt.2 hmore)]

/-- A queue with one slot takes one chord that moves. -/
theorem enqueueArcChunk_one {q : Planner K} {arc : ArcInProgress K}
    (hone : q.blocks.length + 1 = blockQueueLen) (hmore : arc.nextSeg < arc.segments)
    (hmoves : ¬NoMove q.config (q.stepDelta (arc.segTarget q.config))) :
    ∃ block room, q.enqueueArcChunk arc = (.ok (.arcPending 1),
      { ((q.note (q.deltaOverflows (arc.segTarget q.config))).append (arc.segTarget q.config) block
        room).recalculate with arcInProgress := some arc.advance }) := by
  have hroom : q.queue.len < blockQueueLen := (Nat.lt_succ_self q.blocks.length).trans_eq hone
  have hremaining : arc.remaining = (arc.segments - arc.nextSeg - 1) + 2 := by
    unfold ArcInProgress.remaining
    omega
  rcases enqueueMove_cases q (arc.segTarget q.config) arc.segFeed arc.units arc.feedMode false
    false with ⟨hnone, -⟩ | ⟨block, room, -, hmove⟩ | ⟨hfull, -⟩
  · exact absurd hnone hmoves
  · refine ⟨block, room, ?_⟩
    have hlen : ¬((q.note (q.deltaOverflows (arc.segTarget q.config))).append
        (arc.segTarget q.config) block room).queue.len < blockQueueLen := by
      rw [Deque.len]
      change ¬(q.blocks ++ [block]).length < blockQueueLen
      rw [List.length_append, ← hone]
      exact lt_irrefl _
    unfold enqueueArcChunk
    rw [hremaining]
    unfold feedSegments
    rw [if_pos hroom, hmove]
    dsimp only
    unfold feedSegments
    rw [if_neg hlen]
    dsimp only
    rw [if_neg (not_lt.2 (show arc.advance.nextSeg ≤ arc.advance.segments from hmore))]
  · exact absurd hroom (not_lt.2 hfull)

end Chords

/-- Half a turn, with a block taken and more fed. -/
theorem chunked_feeding_halfTurn :
    ∃ fed, Midway atMinusTen halfTurnArc fed
      (feedRun [.popBlock, .resumeArc] (atMinusTen.planCommand halfTurn).2).1
      (feedRun [.popBlock, .resumeArc] (atMinusTen.planCommand halfTurn).2).2 := by
  obtain ⟨outcome, p₁, hplan⟩ := planCommand_arc_ok arcGeometry_halfTurn
  obtain ⟨arc, hgeometry, hruns⟩ := chunked_feeding hplan
  obtain rfl : halfTurnArc = arc := Option.some.inj (arcGeometry_halfTurn.symm.trans hgeometry)
  obtain ⟨fed, hmidway, -⟩ := hruns [.popBlock, .resumeArc]
  have hp₁ : (atMinusTen.planCommand halfTurn).2 = p₁ := congrArg Prod.snd hplan
  rw [hp₁]
  exact ⟨fed, hmidway⟩

/-- The machine at X-10 with a full queue. -/
noncomputable def busyAtMinusTen : Planner ℝ :=
  { atMinusTen with
    queue := ⟨List.replicate 32 (Block.placeholder ![1, 0, 0, 0]), by
      rw [List.length_replicate]
      exact le_rfl⟩ }

/-- A rapid to X-30 Y20. -/
def rapidAway : PlannerCommand ℝ :=
  .move true { halfTurnWords with y := some (10 + 10) } .millimeter .absolute 0 .unitsPerMin false

/-- There is a block to take, and taking it moves nothing. -/
theorem exists_popBlock {q : Planner ℝ} {n : ℕ} (h : q.blocks.length = n + 1) :
    ∃ block q', q.popBlock = some (block, q') ∧ q'.blocks.length = n
      ∧ q'.config = q.config ∧ q'.positionSteps = q.positionSteps
      ∧ q'.workOffsetMm = q.workOffsetMm ∧ q'.arcInProgress = q.arcInProgress := by
  obtain ⟨block, rest, hblocks⟩ := List.exists_cons_of_length_eq_add_one h
  have hrest : rest.length = n := by
    rw [hblocks] at h
    exact Nat.succ.inj h
  have hbound : rest.length ≤ blockQueueLen :=
    (Nat.le_succ _).trans ((congrArg List.length hblocks).symm.le.trans q.queue.length_le)
  exact ⟨block, { q with
      queue := ⟨rest, hbound⟩, headBusy := !(⟨rest, hbound⟩ : Deque _ _).isEmpty },
    (popBlock_eq_some_iff _ _ _).2 ⟨⟨rest, hbound⟩, hblocks, rfl⟩, hrest, rfl, rfl, rfl, rfl⟩

/-- The rapid is accepted where the first chord ends, if there is a slot. -/
theorem rapidAway_accepted {q : Planner ℝ} (hconfig : q.config = coarseConfig)
    (hposition : q.positionSteps = ![-2000, 1000, 0, 0]) (hwork : q.workOffsetMm = fun _ => 0)
    (hroom : q.blocks.length < blockQueueLen) :
    (q.planCommand rapidAway).1 = .ok (.queued 1) := by
  have hx : q.resolveTarget { halfTurnWords with y := some (10 + 10) } .millimeter .absolute
      false = ![-3000, 2000, 0, 0] := by
    funext axis
    unfold resolveTarget
    rw [hconfig, hposition, hwork]
    fin_cases axis
    · show mmToSteps (-30 * (if coarseConfig.isRotary 0 = true then 1 else 1) + 0) 100 = _
      rw [ite_self]
      exact mmToSteps_of_eq (-30 * 1 + 0) 100 (-3000) (by norm_num)
    · show mmToSteps ((10 + 10) * (if coarseConfig.isRotary 1 = true then 1 else 1) + 0) 100 = _
      rw [ite_self]
      exact mmToSteps_of_eq ((10 + 10) * 1 + 0) 100 2000 (by norm_num)
    all_goals rfl
  have hmoves : ¬NoMove q.config (q.stepDelta ![-3000, 2000, 0, 0]) := by
    have hdelta : q.stepDelta ![-3000, 2000, 0, 0] = ![-1000, 1000, 0, 0] := by
      unfold stepDelta
      rw [hposition]
      funext axis
      fin_cases axis <;> rfl
    rw [hconfig, hdelta]
    exact moves_halfTurn
  unfold planCommand planCommandWithLimits rapidAway
  dsimp only [checkTravel]
  rw [hx]
  unfold planLine
  rcases enqueueMove_cases q ![-3000, 2000, 0, 0] 0 .millimeter .unitsPerMin true false with
    ⟨hnone, -⟩ | ⟨block, room, -, hmove⟩ | ⟨hfull, -⟩
  · exact absurd hnone hmoves
  · rw [hmove]
  · exact absurd hroom (not_lt.2 hfull)

/-- **Another line gets in between.** An arc of two chords finds a full queue, its first chord is
fed when a block has been taken, and when another has been taken a rapid is accepted and its block
goes where the second chord's should. -/
theorem line_between_chords :
    ∃ outcome p₁, busyAtMinusTen.planCommand halfTurn = (.ok outcome, p₁)
      ∧ (feedRun [.popBlock, .resumeArc, .popBlock] p₁).2.arcInProgress
        = some halfTurnArc.advance
      ∧ ((feedRun [.popBlock, .resumeArc, .popBlock] p₁).2.planCommand rapidAway).1
        = .ok (.queued 1) := by
  have hlength : ∀ q : Planner ℝ, q.recalculate.blocks.length = q.blocks.length := by
    intro q
    rw [blocks_recalculate, length_forwardPass, length_reversePass]
  have hfull : busyAtMinusTen.blocks.length = 32 := List.length_replicate
  have hplan : busyAtMinusTen.planCommand halfTurn = (.ok (.arcPending 0),
      { busyAtMinusTen.recalculate with arcInProgress := some halfTurnArc }) := by
    have hgeometry : busyAtMinusTen.arcGeometry false halfTurnWords (some (-10)) none none .xy
        .millimeter .absolute 600 .unitsPerMin false = some halfTurnArc := arcGeometry_halfTurn
    unfold planCommand planCommandWithLimits halfTurn
    dsimp only [checkTravel]
    unfold planArc
    rw [hgeometry]
    exact enqueueArcChunk_full hfull.ge (by decide)
  refine ⟨_, _, hplan, ?_⟩
  -- A block is taken.
  obtain ⟨b₁, q₁, hpop₁, hlen₁, hconfig₁, hposition₁, hwork₁, harc₁⟩ :=
    @exists_popBlock { busyAtMinusTen.recalculate with arcInProgress := some halfTurnArc } 31
      ((hlength busyAtMinusTen).trans hfull)
  -- The first chord is fed.
  have hmoves : ¬NoMove q₁.config (q₁.stepDelta (halfTurnArc.segTarget q₁.config)) := by
    have hdelta : q₁.stepDelta ![-2000, 1000, 0, 0] = ![-1000, 1000, 0, 0] := by
      unfold stepDelta
      rw [hposition₁]
      funext axis
      fin_cases axis <;> rfl
    rw [show q₁.config = coarseConfig from hconfig₁, segTarget_halfTurn, hdelta]
    exact moves_halfTurn
  obtain ⟨block, room, hchunk⟩ := enqueueArcChunk_one (congrArg (· + 1) hlen₁)
    (show halfTurnArc.nextSeg < halfTurnArc.segments by decide) hmoves
  have hresume : q₁.resumeArc = q₁.enqueueArcChunk halfTurnArc := by
    unfold Planner.resumeArc
    rw [harc₁]
  -- And another block is taken.
  obtain ⟨b₂, q₂, hpop₂, hlen₂, hconfig₂, hposition₂, hwork₂, harc₂⟩ := @exists_popBlock
    { ((q₁.note (q₁.deltaOverflows (halfTurnArc.segTarget q₁.config))).append
      (halfTurnArc.segTarget q₁.config) block room).recalculate with
        arcInProgress := some halfTurnArc.advance } 31 (by
      refine (hlength _).trans ?_
      rw [blocks_append, List.length_append]
      exact congrArg (· + 1) hlen₁)
  have hrun : (feedRun [.popBlock, .resumeArc, .popBlock]
      { busyAtMinusTen.recalculate with arcInProgress := some halfTurnArc }).2 = q₂ := by
    simp only [feedRun, feedStep, hpop₁, hresume, hchunk, hpop₂]
  rw [hrun]
  refine ⟨harc₂, rapidAway_accepted ?_ ?_ ?_ ?_⟩
  · exact hconfig₂.trans hconfig₁
  · refine hposition₂.trans ?_
    change halfTurnArc.segTarget q₁.config = _
    rw [show q₁.config = coarseConfig from hconfig₁, segTarget_halfTurn]
  · exact hwork₂.trans hwork₁
  · rw [hlen₂]
    decide

end Planner

end Galdr
