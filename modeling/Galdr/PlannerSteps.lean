import Galdr.PlannerBlock

/-!
# The small steps of the planner

Every planning call is a path of small steps: append a built block, settle the
queue, drop the junction state, or touch a field no invariant speaks of
(`PlanStep`). A path runs over pairs of a planner and a flag that says whether
the entry speeds are settled; every call starts and ends settled
(`PlannerOp.path`). Invariants are then proved once for each small step.

A path may be *exact*: none of its step subtractions leaves the 32-bit range.
When that is so is read off the state before the call (`PlannerOp.Exact`).
-/

namespace Galdr

open Relation

variable {K : Type} [Field K] [LinearOrder K]

namespace Planner

/-- The planner with the outcome of an overflow check noted. -/
def note (p : Planner K) (overflows : Bool) : Planner K :=
  { p with overflow := p.overflow || overflows }

/-- The planner after a block has been appended. -/
def append (p : Planner K) (target : Axes Int32) (block : Block K)
    (room : p.blocks.length < blockQueueLen) : Planner K :=
  { p with
    queue := ⟨p.blocks ++ [block], by simpa using room⟩
    positionSteps := target
    prevUnitVec := block.unitVec
    prevNominalSpeedSq := block.nominalSpeedSq }

@[simp] theorem blocks_note (p : Planner K) (o : Bool) : (p.note o).blocks = p.blocks :=
  rfl

@[simp] theorem blocks_append (p : Planner K) (target : Axes Int32) (block : Block K)
    (room : p.blocks.length < blockQueueLen) :
    (p.append target block room).blocks = p.blocks ++ [block] := rfl

@[simp] theorem blocks_flushLookahead (p : Planner K) :
    p.flushLookahead.blocks = p.blocks := rfl

@[simp] theorem blocks_recalculate (p : Planner K) :
    p.recalculate.blocks = forwardPass (reversePass p.headBusy p.blocks) := rfl

@[simp] theorem blocks_flushJogBlocks (p : Planner K) :
    p.flushJogBlocks.blocks = p.blocks.rdropWhile Block.jog := rfl

@[simp] theorem blocks_flushQueue (p : Planner K) : p.flushQueue.blocks = [] := rfl

variable [Libm K]

/-- One small step of planning, on a planner and whether its entry speeds are
settled. -/
inductive PlanStep (exact : Prop) : Bool × Planner K → Bool × Planner K → Prop
  /-- An overflow check. -/
  | note (settled : Bool) (p : Planner K) (o : Bool) (h : exact → o = false) :
    PlanStep exact (settled, p) (settled, p.note o)
  /-- A block built and appended. -/
  | append (settled : Bool) (p : Planner K) (target : Axes Int32) (feed : K)
      (units : Units) (feedMode : FeedMode) (rapid jog : Bool) (block : Block K)
      (room : p.blocks.length < blockQueueLen)
      (fits : exact → ∀ axis, SubFits (target axis) (p.positionSteps axis))
      (built : p.buildBlock target feed units feedMode rapid jog = some block) :
    PlanStep exact (settled, p) (false, p.append target block room)
  /-- The two passes. -/
  | recalculate (settled : Bool) (p : Planner K) :
    PlanStep exact (settled, p) (true, p.recalculate)
  /-- The junction state dropped. -/
  | flush (settled : Bool) (p : Planner K) :
    PlanStep exact (settled, p) (settled, p.flushLookahead)
  /-- The arc in progress changed. -/
  | arc (settled : Bool) (p : Planner K) (arc : Option (ArcInProgress K)) :
    PlanStep exact (settled, p) (settled, { p with arcInProgress := arc })

/-- A path of small steps. -/
abbrev PlanPath (exact : Prop) : Bool × Planner K → Bool × Planner K → Prop :=
  ReflTransGen (PlanStep exact)

/-- The step difference to a target is the true one on every axis. -/
def DeltaExact (p : Planner K) (target : Axes Int32) : Prop :=
  ∀ axis, SubFits (target axis) (p.positionSteps axis)

omit [Libm K] in
theorem deltaOverflows_eq_false_iff (p : Planner K) (target : Axes Int32) :
    p.deltaOverflows target = false ↔ p.DeltaExact target := by
  unfold deltaOverflows DeltaExact
  simp

/-! ## Appending one move -/

/-- **What appending a move does**: it notes the overflow check, and appends the
block if there is one and the queue has room. -/
theorem enqueueMove_cases (p : Planner K) (target : Axes Int32) (feed : K)
    (units : Units) (feedMode : FeedMode) (rapid jog : Bool) :
    (NoMove p.config (p.stepDelta target)
      ∧ p.enqueueMove target feed units feedMode rapid jog
        = (.ok 0, p.note (p.deltaOverflows target)))
    ∨ (∃ (block : Block K) (room : p.blocks.length < blockQueueLen),
      p.buildBlock target feed units feedMode rapid jog = some block
        ∧ p.enqueueMove target feed units feedMode rapid jog
          = (.ok 1, (p.note (p.deltaOverflows target)).append target block room))
    ∨ (blockQueueLen ≤ p.blocks.length
      ∧ p.enqueueMove target feed units feedMode rapid jog
        = (.error .queueFull, p.note (p.deltaOverflows target))) := by
  cases hbuild : p.buildBlock target feed units feedMode rapid jog with
  | none =>
    left
    refine ⟨(buildBlock_eq_none_iff p target feed units feedMode rapid jog).1 hbuild, ?_⟩
    simp only [enqueueMove, hbuild]
    rfl
  | some block =>
    right
    cases hpush : p.queue.pushBack block with
    | none =>
      right
      refine ⟨(Deque.pushBack_eq_none_iff _ _).1 hpush, ?_⟩
      simp only [enqueueMove, hbuild, enqueue, hpush]
      rfl
    | some q =>
      left
      obtain ⟨room, hq⟩ := (Deque.pushBack_eq_some_iff _ _ _).1 hpush
      refine ⟨block, room, rfl, ?_⟩
      have hqueue : q = ⟨p.blocks ++ [block], by simpa using room⟩ := Deque.ext hq
      simp only [enqueueMove, hbuild, enqueue, hpush, hqueue]
      rfl

variable {exact : Prop}

/-- Appending a move is a path of small steps. -/
theorem enqueueMove_path (settled : Bool) (p : Planner K) (target : Axes Int32)
    (feed : K) (units : Units) (feedMode : FeedMode) (rapid jog : Bool)
    (hexact : exact → p.DeltaExact target) :
    ∃ settled', PlanPath exact (settled, p)
        (settled', (p.enqueueMove target feed units feedMode rapid jog).2)
      ∧ ((p.enqueueMove target feed units feedMode rapid jog).1 ≠ .ok 1 →
        settled' = settled) := by
  have hnote : PlanPath exact (settled, p)
      (settled, p.note (p.deltaOverflows target)) :=
    .single (.note settled p _ fun h =>
      (deltaOverflows_eq_false_iff p target).2 (hexact h))
  rcases enqueueMove_cases p target feed units feedMode rapid jog with
    ⟨_, h⟩ | ⟨block, room, hbuild, h⟩ | ⟨_, h⟩
  · exact ⟨settled, by rw [h]; exact hnote, fun _ => rfl⟩
  · refine ⟨false, ?_, ?_⟩
    · rw [h]
      exact hnote.tail (.append settled (p.note (p.deltaOverflows target)) target feed
        units feedMode rapid jog block room hexact hbuild)
    · rw [h]
      exact fun hne => absurd rfl hne
  · exact ⟨settled, by rw [h]; exact hnote, fun _ => rfl⟩

/-- Planning a line is a path that ends settled. -/
theorem planLine_path (p : Planner K) (target : Axes Int32) (feed : K)
    (units : Units) (feedMode : FeedMode) (rapid : Bool)
    (hexact : exact → p.DeltaExact target) :
    PlanPath exact (true, p) (true, (p.planLine target feed units feedMode rapid).2) := by
  obtain ⟨settled', hpath, hsame⟩ :=
    enqueueMove_path true p target feed units feedMode rapid false hexact
  unfold planLine
  cases hmove : p.enqueueMove target feed units feedMode rapid false with
  | mk result p' =>
    rw [hmove] at hpath hsame
    cases result with
    | error e =>
      obtain rfl := hsame nofun
      exact hpath
    | ok n =>
      by_cases hn : n = 1
      · subst hn
        exact hpath.tail (.recalculate settled' p')
      · obtain rfl := hsame (by simpa using hn)
        simpa [hn] using hpath

variable [FloorRing K]

omit [Libm K] in
/-- The lower travel bound of every bounded axis can take the one-step tolerance:
the travel does not saturate. -/
def TravelExact (p : Planner K) (limits : Option (SoftLimits K)) : Prop :=
  ∀ l ∈ limits, ∀ axis, p.config.isRotary axis = false →
    SubFits (travelSteps p.config.stepsPerMm l.maxTravelMm axis) 1

omit [Libm K] in
theorem softLimitOverflows_eq_false {target : Axes Int32}
    {stepsPerMm maxTravelMm : Axes K} {rotaryMask : UInt8} {axes : List (Fin 4)}
    (h : ∀ axis, rotaryBit rotaryMask axis = false →
      SubFits (travelSteps stepsPerMm maxTravelMm axis) 1) :
    softLimitOverflows target stepsPerMm maxTravelMm rotaryMask axes = false := by
  induction axes with
  | nil => rfl
  | cons axis rest ih =>
    cases hrot : rotaryBit rotaryMask axis with
    | true => simp [softLimitOverflows, hrot, ih]
    | false => simp [softLimitOverflows, hrot, ih, h axis hrot]

omit [Libm K] in
/-- The limits forbid the target. -/
def forbids (p : Planner K) (limits : Option (SoftLimits K)) (target : Axes Int32) :
    Bool :=
  (p.checkTravel limits target).1

omit [Libm K] in
/-- Holding a target against the envelope only notes an overflow check. -/
theorem checkTravel_eq (p : Planner K) (limits : Option (SoftLimits K))
    (target : Axes Int32) :
    ∃ o, p.checkTravel limits target = (p.forbids limits target, p.note o)
      ∧ (p.TravelExact limits → o = false) := by
  cases limits with
  | none => exact ⟨false, by simp [forbids, checkTravel, note], fun _ => rfl⟩
  | some l =>
    refine ⟨_, rfl, fun h => ?_⟩
    exact softLimitOverflows_eq_false fun axis hrot => h l rfl axis hrot

/-! ## Feeding an arc -/

/-- Where the planner is after planning a move from `pos` to `target`: a move
without length leaves it where it was. -/
def landing (config : PlannerConfig K) (pos target : Axes Int32) : Axes Int32 :=
  if NoMove config fun axis => target axis - pos axis then pos else target

/-- The step differences of the segments that a chunk plans from a position are
true ones, as far as there is room. -/
def ChordsExact (config : PlannerConfig K) :
    ℕ → ℕ → ArcInProgress K → Axes Int32 → Prop
  | 0, _, _, _ => True
  | _ + 1, 0, _, _ => True
  | remaining + 1, room + 1, arc, pos =>
    let target := arc.segTarget config
    (∀ axis, SubFits (target axis) (pos axis))
      ∧ ChordsExact config remaining
          (if NoMove config fun axis => target axis - pos axis then room + 1 else room)
          arc.advance (landing config pos target)

/-- The step differences of the next chunk of an arc are true ones. -/
def ChunkExact (p : Planner K) (arc : ArcInProgress K) : Prop :=
  ChordsExact p.config arc.remaining (blockQueueLen - p.blocks.length) arc
    p.positionSteps

/-- Feeding segments is a path of small steps. -/
theorem feedSegments_path (remaining : ℕ) (arc : ArcInProgress K) (enqueued : ℕ)
    (settled : Bool) (p : Planner K)
    (hexact : exact → ChordsExact p.config remaining
      (blockQueueLen - p.blocks.length) arc p.positionSteps) :
    ∃ settled', PlanPath exact (settled, p)
      (settled', (feedSegments remaining arc enqueued p).2) := by
  induction remaining generalizing arc enqueued settled p with
  | zero => exact ⟨settled, .refl⟩
  | succ remaining ih =>
    by_cases hroom : p.queue.len < blockQueueLen
    · have hlen : blockQueueLen - p.blocks.length
          = blockQueueLen - p.blocks.length - 1 + 1 := by
        have : p.blocks.length < blockQueueLen := hroom
        omega
      rw [hlen] at hexact
      have hmove := enqueueMove_path settled p (arc.segTarget p.config) arc.segFeed
        arc.units arc.feedMode false false fun h => (hexact h).1
      obtain ⟨settled', hpath, -⟩ := hmove
      simp only [feedSegments, if_pos hroom]
      rcases enqueueMove_cases p (arc.segTarget p.config) arc.segFeed arc.units
          arc.feedMode false false with
        ⟨hno, h⟩ | ⟨block, room, hbuild, h⟩ | ⟨hfull, h⟩
      · rw [h] at hpath ⊢
        have hrest : exact → ChordsExact p.config remaining
            (blockQueueLen - (p.note (p.deltaOverflows (arc.segTarget p.config))).blocks.length)
            arc.advance p.positionSteps := by
          intro he
          have h2 := (hexact he).2
          have hno' : NoMove p.config fun axis =>
              arc.segTarget p.config axis - p.positionSteps axis := hno
          rw [if_pos hno', landing, if_pos hno', ← hlen] at h2
          exact h2
        obtain ⟨settled'', hpath'⟩ := ih arc.advance (enqueued + 0) settled'
          (p.note (p.deltaOverflows (arc.segTarget p.config))) hrest
        exact ⟨settled'', hpath.trans hpath'⟩
      · rw [h] at hpath ⊢
        have hmoved : ¬NoMove p.config fun axis =>
            arc.segTarget p.config axis - p.positionSteps axis := by
          intro hno
          rw [(buildBlock_eq_none_iff p _ arc.segFeed arc.units arc.feedMode false
            false).2 hno] at hbuild
          cases hbuild
        have hrest : exact → ChordsExact p.config remaining
            (blockQueueLen - (p.blocks ++ [block]).length)
            arc.advance (arc.segTarget p.config) := by
          intro he
          have h2 := (hexact he).2
          rw [if_neg hmoved, landing, if_neg hmoved] at h2
          rwa [List.length_append, List.length_singleton, ← Nat.sub_sub]
        obtain ⟨settled'', hpath'⟩ := ih arc.advance (enqueued + 1) settled'
          ((p.note (p.deltaOverflows (arc.segTarget p.config))).append
            (arc.segTarget p.config) block room) hrest
        exact ⟨settled'', hpath.trans hpath'⟩
      · exact absurd hroom (not_lt.2 hfull)
    · simp only [feedSegments, if_neg hroom]
      exact ⟨settled, .refl⟩

/-- Feeding a chunk of an arc is a path that ends settled. -/
theorem enqueueArcChunk_path (settled : Bool) (p : Planner K) (arc : ArcInProgress K)
    (hexact : exact → p.ChunkExact arc) :
    PlanPath exact (settled, p) (true, (p.enqueueArcChunk arc).2) := by
  obtain ⟨settled', hpath⟩ := feedSegments_path arc.remaining arc 0 settled p hexact
  unfold enqueueArcChunk
  cases hfeed : feedSegments arc.remaining arc 0 p with
  | mk result p' =>
    rw [hfeed] at hpath
    cases result with
    | error e =>
      exact (hpath.tail (.arc settled' p' none)).tail (.recalculate settled' _)
    | ok done =>
      obtain ⟨arc', enqueued⟩ := done
      have hsolved := hpath.tail (.recalculate settled' p')
      by_cases hdone : arc'.segments < arc'.nextSeg
      · simp only [if_pos hdone]
        exact hsolved.tail (.arc true p'.recalculate none)
      · simp only [if_neg hdone]
        exact hsolved.tail (.arc true p'.recalculate (some arc'))

end Planner

end Galdr
