import Galdr.Motion
import Galdr.PlannerContinuity

/-!
# The job-time simulator

The simulator runs a program through the planner and estimates how long each of its
commands takes. It takes blocks from the queue only when a command finds no room, and
the rest at the end of the program; a command is charged for the blocks that came into
the queue while it was planned, by their numbers in the order of the queue, once every
block has been taken.

The state also keeps an account that the program does not have: the command that each
queued block belongs to, and what was taken, with its command and the speed it is left
at. No function reads it.
-/

namespace Galdr

variable {K : Type} [Field K] [LinearOrder K]

/-- What the simulator makes of a command. -/
inductive SimStep (K : Type)
  /-- A motion and its time. -/
  | move (seconds : K) (rapid : Bool)
  /-- A dwell. -/
  | dwell (seconds : K)
  /-- A spindle command. -/
  | spindle (state : SpindleState)
  /-- A wait for the operator. -/
  | pause (optional toolChange : Bool)
  /-- The end of the program. -/
  | programEnd
  /-- No time is estimated. -/
  | untimed

/-- A command before the times are known: a motion by the numbers of its blocks. -/
inductive Slot (K : Type)
  /-- A motion and the range of its blocks. -/
  | move (start stop : ℕ)
  /-- A command that is finished. -/
  | done (step : SimStep K)

/-- A block that was taken from the queue. -/
structure Taken (K : Type) where
  /-- The command it belongs to. -/
  owner : Option ℕ
  /-- The block. -/
  block : Block K
  /-- The entry of the next queued block when it was taken, or rest. -/
  exitSq : K

/-- The state of the simulator. -/
structure Sim (K : Type) [Field K] [LinearOrder K] where
  /-- The planner. -/
  planner : Planner K
  /-- The blocks taken from the queue, oldest first. -/
  blocks : List (Block K)
  /-- The commands so far. -/
  slots : List (Slot K)
  /-- The number of blocks that came into the queue. -/
  enqueuedTotal : ℕ
  /-- The commands of the queued blocks. -/
  owners : List ℕ
  /-- What was taken. -/
  taken : List (Taken K)

namespace Sim

/-- Before the program. -/
def new (config : PlannerConfig K) : Sim K where
  planner := .new config
  blocks := []
  slots := []
  enqueuedTotal := 0
  owners := []
  taken := []

/-- The planner after a call for a command. The command owns what came into the queue. -/
def called (s : Sim K) (command : ℕ) (planner : Planner K) : Sim K :=
  { s with
    planner := planner
    owners := s.owners
      ++ List.replicate (planner.queuedLen - s.planner.queuedLen) command }

/-- Take the oldest block. -/
def pop (s : Sim K) : Option (Sim K) :=
  s.planner.takeBlock.map fun (block, exitSq, planner) =>
    { s with
      planner := planner
      blocks := s.blocks ++ [block]
      owners := s.owners.tail
      taken := s.taken ++ [⟨s.owners.head?, block, exitSq⟩] }

/-- A finished command. -/
def slot (s : Sim K) (slot : Slot K) : Sim K := { s with slots := s.slots ++ [slot] }

/-- More blocks came into the queue. -/
def count (s : Sim K) (blocks : ℕ) : Sim K :=
  { s with enqueuedTotal := s.enqueuedTotal + blocks }

@[simp] theorem planner_called (s : Sim K) (command : ℕ) (p : Planner K) :
    (s.called command p).planner = p := rfl

@[simp] theorem planner_count (s : Sim K) (n : ℕ) : (s.count n).planner = s.planner := rfl

@[simp] theorem planner_slot (s : Sim K) (r : Slot K) : (s.slot r).planner = s.planner := rfl

/-- What a pop does. -/
theorem pop_eq_some {s t : Sim K} (h : s.pop = some t) :
    ∃ block planner, s.planner.popBlock = some (block, planner)
      ∧ t = { s with
        planner := planner
        blocks := s.blocks ++ [block]
        owners := s.owners.tail
        taken := s.taken ++ [⟨s.owners.head?, block, Planner.nextEntrySq planner.blocks⟩] } := by
  obtain ⟨⟨block, exitSq, planner⟩, htake, rfl⟩ := Option.map_eq_some_iff.1 h
  obtain ⟨⟨b, p⟩, hpop, heq⟩ := Option.map_eq_some_iff.1 htake
  obtain ⟨rfl, hrest⟩ := Prod.mk.inj heq
  obtain ⟨rfl, rfl⟩ := Prod.mk.inj hrest
  refine ⟨b, p, hpop, ?_⟩
  have hexit : (p.peekBlock.map Block.entrySpeedSq).getD 0
      = Planner.nextEntrySq p.blocks := by
    show (p.blocks.head?.map Block.entrySpeedSq).getD 0 = _
    cases p.blocks <;> rfl
  rw [hexit]

theorem pop_eq_none {s : Sim K} (h : s.pop = none) : s.planner.blocks = [] := by
  have htake := Option.map_eq_none_iff.1 h
  exact (Deque.popFront_eq_none_iff _).1
    (Option.map_eq_none_iff.1 (Option.map_eq_none_iff.1 htake))

/-- A pop shortens the queue. -/
theorem length_pop {s t : Sim K} (h : s.pop = some t) :
    t.planner.blocks.length + 1 = s.planner.blocks.length := by
  obtain ⟨block, planner, hpop, rfl⟩ := pop_eq_some h
  obtain ⟨rest, hblocks, rfl⟩ := (Planner.popBlock_eq_some_iff _ _ _).1 hpop
  rw [hblocks]
  rfl

end Sim

/-! ## What a call of the planner does to the queue -/

/-- The blocks a call reports. -/
def enqueuedCount : Except PlannerError (PlannerOutcome K) → ℕ
  | .ok (.queued n) => n
  | .ok (.arcPending n) => n
  | _ => 0

/-- A call leaves part of an arc behind. -/
def isPending : Except PlannerError (PlannerOutcome K) → Bool
  | .ok (.arcPending _) => true
  | _ => false

/-- A call found no room. -/
def isFull : Except PlannerError (PlannerOutcome K) → Bool
  | .error .queueFull => true
  | _ => false

omit [Field K] [LinearOrder K] in
/-- A call that found no room reports nothing. -/
theorem quiet_of_isFull {result : Except PlannerError (PlannerOutcome K)}
    (h : isFull result = true) : enqueuedCount result = 0 ∧ isPending result = false := by
  rcases result with e | outcome
  · exact ⟨rfl, rfl⟩
  · exact absurd h Bool.false_ne_true

namespace Planner

variable [FloorRing K] [Libm K]

/-- What a call that plans does to the queue: it appends the blocks it reports, and it
leaves no room when it says so. -/
structure Call (p q : Planner K) (result : Except PlannerError (PlannerOutcome K)) :
    Prop where
  /-- The blocks it reports. -/
  length : q.blocks.length = p.blocks.length + enqueuedCount result
  /-- The queue is full. -/
  full : isPending result = true ∨ isFull result = true → blockQueueLen ≤ q.blocks.length
  /-- There is an arc in progress when the call says so, or was one before. -/
  pending : p.arcInProgress = none → q.arcInProgress.isSome = isPending result

omit [FloorRing K] [Libm K] in
theorem length_append (p : Planner K) (o : Bool) (target : Axes Int32) (block : Block K)
    (room : (p.note o).blocks.length < blockQueueLen) :
    ((p.note o).append target block room).blocks.length = p.blocks.length + 1 := by
  show (p.blocks ++ [block]).length = _
  rw [List.length_append]
  rfl

/-- What feeding an arc does: the segments it feeds come into the queue, until there are
no more or the queue is full, and some are fed when there is room. -/
theorem feedSegments_spec (remaining : ℕ) (arc : ArcInProgress K) (enqueued : ℕ)
    (p : Planner K) (hremaining : remaining = arc.remaining) :
    ∃ p' m total,
      feedSegments remaining arc enqueued p
          = (.ok ({ arc with nextSeg := m }, total), p')
        ∧ p'.blocks.length + enqueued = p.blocks.length + total
        ∧ (arc.segments < m ∨ blockQueueLen ≤ p'.blocks.length)
        ∧ arc.nextSeg ≤ m
        ∧ (p.blocks.length < blockQueueLen → arc.nextSeg < m ∨ arc.segments < m) := by
  induction remaining generalizing arc enqueued p with
  | zero =>
    have hdone : arc.segments < arc.nextSeg := by
      unfold ArcInProgress.remaining at hremaining
      omega
    exact ⟨p, arc.nextSeg, enqueued, rfl, rfl, Or.inl hdone, le_rfl, fun _ => Or.inr hdone⟩
  | succ remaining ih =>
    have hsegment : remaining = arc.advance.remaining := by
      unfold ArcInProgress.remaining at hremaining ⊢
      show remaining = arc.segments + 1 - (arc.nextSeg + 1)
      omega
    unfold feedSegments
    split
    · rename_i hroom
      rcases enqueueMove_cases p (arc.segTarget p.config) arc.segFeed arc.units
          arc.feedMode false false with ⟨_, h⟩ | ⟨block, room, _, h⟩ | ⟨hfull, _⟩
      · rw [h]
        obtain ⟨p', m, total, hfeed, hlength, hend, hle, _⟩ :=
          ih arc.advance (enqueued + 0) (p.note (p.deltaOverflows (arc.segTarget p.config)))
            hsegment
        have hnext : arc.nextSeg + 1 ≤ m := hle
        exact ⟨p', m, total, hfeed, hlength, hend, by omega, fun _ => Or.inl hnext⟩
      · rw [h]
        obtain ⟨p', m, total, hfeed, hlength, hend, hle, _⟩ :=
          ih arc.advance (enqueued + 1)
            ((p.note (p.deltaOverflows (arc.segTarget p.config))).append
              (arc.segTarget p.config) block room) hsegment
        have hnext : arc.nextSeg + 1 ≤ m := hle
        have hgrown := length_append p (p.deltaOverflows (arc.segTarget p.config))
          (arc.segTarget p.config) block room
        exact ⟨p', m, total, hfeed, by omega, hend, by omega, fun _ => Or.inl hnext⟩
      · exact absurd hroom (not_lt.2 hfull)
    · rename_i hroom
      have hfull : blockQueueLen ≤ p.blocks.length := not_lt.1 hroom
      exact ⟨p, arc.nextSeg, enqueued, rfl, rfl, Or.inr hfull, le_rfl,
        fun h => absurd h (not_lt.2 hfull)⟩

omit [FloorRing K] [Libm K] in
theorem length_recalculate (p : Planner K) :
    p.recalculate.blocks.length = p.blocks.length := by
  rw [blocks_recalculate, length_forwardPass, length_reversePass]

/-- The segments that an arc in progress still has. -/
def arcRemaining (p : Planner K) : ℕ := (p.arcInProgress.map ArcInProgress.remaining).getD 0

/-- A chunk of an arc is a call, and feeds some of it when there is room. -/
theorem enqueueArcChunk_call (p : Planner K) (arc : ArcInProgress K) :
    Call p (p.enqueueArcChunk arc).2 (p.enqueueArcChunk arc).1
      ∧ (p.enqueueArcChunk arc).2.arcInProgress.isSome
        = isPending (p.enqueueArcChunk arc).1
      ∧ (p.blocks.length < blockQueueLen → isPending (p.enqueueArcChunk arc).1 = true →
        (p.enqueueArcChunk arc).2.arcRemaining < arc.remaining) := by
  obtain ⟨p', m, total, hfeed, hlength, hend, hle, hsome⟩ :=
    feedSegments_spec arc.remaining arc 0 p rfl
  unfold enqueueArcChunk
  rw [hfeed]
  have hgrown : p'.recalculate.blocks.length = p.blocks.length + total := by
    rw [length_recalculate]
    omega
  by_cases hdone : arc.segments < m
  · dsimp only
    rw [if_pos hdone]
    refine ⟨⟨hgrown, ?_, fun _ => rfl⟩, rfl, fun _ h => absurd h (by simp [isPending])⟩
    rintro (h | h)
    · cases h
    · cases h
  · dsimp only
    rw [if_neg hdone]
    refine ⟨⟨hgrown, fun _ => ?_, fun _ => rfl⟩, rfl, fun hroom _ => ?_⟩
    · exact (hend.resolve_left hdone).trans (length_recalculate p').ge
    · have hmore := (hsome hroom).resolve_right hdone
      show arc.segments + 1 - m < arc.segments + 1 - arc.nextSeg
      omega

omit [FloorRing K] in
/-- Planning a line is a call. -/
theorem planLine_call (p : Planner K) (target : Axes Int32)
    (feed : K) (units : Units) (feedMode : FeedMode) (rapid : Bool) :
    Call p (p.planLine target feed units feedMode rapid).2
      ((p.planLine target feed units feedMode rapid).1.map .queued) := by
  unfold planLine
  rcases enqueueMove_cases p target feed units feedMode rapid false with
    ⟨_, h⟩ | ⟨block, room, _, h⟩ | ⟨hfull, h⟩
  · rw [h]
    refine ⟨rfl, ?_, congrArg Option.isSome⟩
    rintro (h | h)
    · cases h
    · cases h
  · rw [h]
    refine ⟨?_, ?_, congrArg Option.isSome⟩
    · show (recalculate _).blocks.length = _ + 1
      rw [length_recalculate]
      exact length_append p _ target block room
    · rintro (h | h)
      · cases h
      · cases h
  · rw [h]
    exact ⟨rfl, fun _ => hfull, congrArg Option.isSome⟩

/-- Planning a command is a call. -/
theorem planCommand_call (p : Planner K) (command : PlannerCommand K) :
    Call p (p.planCommand command).2 (p.planCommand command).1 := by
  have hquiet : ∀ (q : Planner K) (result : Except PlannerError (PlannerOutcome K)),
      q.blocks = p.blocks → q.arcInProgress = p.arcInProgress → enqueuedCount result = 0 →
      isPending result = false → isFull result = false → Call p q result := by
    intro q result hblocks hsame hcount hpending hfull
    refine ⟨by rw [hblocks, hcount, Nat.add_zero], fun h => ?_, fun harc => ?_⟩
    · rw [hpending, hfull] at h
      rcases h with h | h <;> cases h
    · rw [hsame, harc, hpending]
      rfl
  unfold planCommand planCommandWithLimits
  cases command with
  | move rapid axes units distance feed feedMode machineCoords =>
    simp only [checkTravel]
    have hline := p.planLine_call (p.resolveTarget axes units distance machineCoords)
      feed units feedMode rapid
    rcases hplan : p.planLine (p.resolveTarget axes units distance machineCoords) feed units
      feedMode rapid with ⟨_ | _, q⟩
    · rw [hplan] at hline
      exact hline
    · rw [hplan] at hline
      exact hline
  | arc cw axes i j k plane units distance feed feedMode machineCoords =>
    simp only [checkTravel, planArc]
    cases p.arcGeometry cw axes i j k plane units distance feed feedMode machineCoords with
    | none => exact hquiet p _ rfl rfl rfl rfl rfl
    | some arc => exact (enqueueArcChunk_call p arc).1
  | probe | dwell | spindle => exact hquiet _ _ rfl rfl rfl rfl rfl
  | goToPredefined isG28 intermediate units distance =>
    exact hquiet _ _ rfl rfl rfl rfl rfl
  | coordinate | programEnd | programPause | coolant => exact hquiet _ _ rfl rfl rfl rfl rfl

/-- Feeding the arc in progress is a call, which says whether there still is one, and
feeds some of it when there is room. -/
theorem resumeArc_call (p : Planner K) :
    Call p p.resumeArc.2 p.resumeArc.1
      ∧ p.resumeArc.2.arcInProgress.isSome = isPending p.resumeArc.1
      ∧ (p.blocks.length < blockQueueLen → isPending p.resumeArc.1 = true →
        p.resumeArc.2.arcRemaining < p.arcRemaining) := by
  unfold resumeArc arcRemaining
  cases harc : p.arcInProgress with
  | none =>
    have hnone : p.arcInProgress.isSome = false := congrArg Option.isSome harc
    refine ⟨⟨rfl, ?_, fun _ => hnone⟩, hnone, fun _ h => absurd h (by simp [isPending])⟩
    rintro (h | h)
    · cases h
    · cases h
  | some arc => exact enqueueArcChunk_call p arc

end Planner

/-! ## The simulator -/

namespace Sim

variable [FloorRing K] [Libm K]

/-- Plan a command, and take blocks while it finds no room. -/
def planRetrying (s : Sim K) (i : ℕ) (command : PlannerCommand K) :
    Except PlannerError (PlannerOutcome K) × Sim K :=
  let called := s.called i (s.planner.planCommand command).2
  if isFull (s.planner.planCommand command).1 then
    match _hpop : called.pop with
    -- The queue would be full and empty at once.
    | none => (.error .queueFull, called)
    | some t => t.planRetrying i command
  else ((s.planner.planCommand command).1, called)
  termination_by s.planner.blocks.length
  decreasing_by
    rename_i hfull
    have hpopped := length_pop _hpop
    have hsame := (s.planner.planCommand_call command).length
    have hnone := (quiet_of_isFull hfull).1
    have hcalled : called.planner.blocks.length = s.planner.blocks.length := by
      rw [← Nat.add_zero s.planner.blocks.length, ← hnone]
      exact hsame
    omega

/-- Take the oldest block, if there is one. -/
def popSome (s : Sim K) : Sim K := s.pop.getD s

omit [FloorRing K] [Libm K] in
/-- A queue that a block was taken from has room. -/
theorem room_popSome (s : Sim K) : s.popSome.planner.blocks.length < blockQueueLen := by
  unfold popSome
  cases hpop : s.pop with
  | none =>
    show s.planner.blocks.length < blockQueueLen
    rw [pop_eq_none hpop]
    show 0 < 32
    decide
  | some t =>
    have hlength := length_pop hpop
    have hle : s.planner.blocks.length ≤ blockQueueLen := s.planner.queue.length_le
    show t.planner.blocks.length < blockQueueLen
    omega

omit [FloorRing K] [Libm K] in
theorem arc_popSome (s : Sim K) :
    s.popSome.planner.arcInProgress = s.planner.arcInProgress := by
  unfold popSome
  cases hpop : s.pop with
  | none => rfl
  | some t =>
    obtain ⟨block, planner, htaken, rfl⟩ := pop_eq_some hpop
    obtain ⟨rest, hblocks, rfl⟩ := (Planner.popBlock_eq_some_iff _ _ _).1 htaken
    rfl

/-- Feed the arc in progress to its end, a block taken for each chunk. -/
def drainArc (s : Sim K) (i : ℕ) : Sim K :=
  if s.planner.arcInProgress.isSome then
    let resumed := s.popSome.called i s.popSome.planner.resumeArc.2
    match _hresult : s.popSome.planner.resumeArc.1 with
    | .ok (.queued blocks) => resumed.count blocks
    | .ok (.arcPending blocks) => (resumed.count blocks).drainArc i
    | _ => resumed
  else s
  termination_by s.planner.arcRemaining
  decreasing_by
    have hless := (Planner.resumeArc_call s.popSome.planner).2.2 s.room_popSome
      (by rw [_hresult]; rfl)
    have hsame : s.popSome.planner.arcRemaining = s.planner.arcRemaining := by
      unfold Planner.arcRemaining
      rw [s.arc_popSome]
    rw [← hsame]
    exact hless

/-- One command of the program. -/
def simulateCommand (s : Sim K) (i : ℕ) (command : PlannerCommand K) : Sim K :=
  match s.planRetrying i command with
  | (.ok (.queued blocks), t) =>
    (t.count blocks).slot (.move t.enqueuedTotal (t.enqueuedTotal + blocks))
  | (.ok (.arcPending blocks), t) =>
    let fed := (t.count blocks).drainArc i
    fed.slot (.move t.enqueuedTotal fed.enqueuedTotal)
  | (.ok (.dwell seconds), t) => t.slot (.done (.dwell seconds))
  | (.ok (.spindle state _), t) => t.slot (.done (.spindle state))
  | (.ok (.programPause optional toolChange), t) =>
    t.slot (.done (.pause optional toolChange))
  | (.ok .programEnd, t) => t.slot (.done .programEnd)
  | (.ok (.goToPredefined _), t) => t.slot (.done .untimed)
  | (.ok (.probe _ _ _ _), t) => t.slot (.done .untimed)
  | (.ok (.coordinate _), t) => t.slot (.done .untimed)
  | (.ok (.coolant _), t) => t.slot (.done .untimed)
  -- A command that is turned down has no motion.
  | (.error _, t) => t.slot (.done .untimed)

/-- The commands of the program, numbered. -/
def simulateCommands : ℕ → List (PlannerCommand K) → Sim K → Sim K
  | _, [], s => s
  | i, command :: rest, s => simulateCommands (i + 1) rest (s.simulateCommand i command)

omit [FloorRing K] [Libm K] in
/-- Take all blocks that are left. -/
def drainQueue (s : Sim K) : Sim K :=
  match _hpop : s.pop with
  | none => s
  | some t => t.drainQueue
  termination_by s.planner.blocks.length
  decreasing_by
    have hpopped := length_pop _hpop
    omega

/-- The whole program, up to the times. -/
def run (commands : List (PlannerCommand K)) (config : PlannerConfig K) : Sim K :=
  (simulateCommands 0 commands (new config)).drainQueue

end Sim

section Times

variable [FloorRing K] [Libm K]

/-- The time of one block: it is left at the entry of the one after it, or at rest.
There is none when there is no such block. -/
def blockSeconds (blocks : List (Block K)) (config : MotionConfig K) (i : ℕ) : Option K :=
  blocks[i]?.map fun block =>
    estimateBlockTime block ((blocks[i + 1]?.map Block.entrySpeedSq).getD 0) config

/-- The time of a range of blocks, added up in their order. -/
def rangeSeconds (blocks : List (Block K)) (config : MotionConfig K) (start stop : ℕ) :
    Option K :=
  (List.range' start (stop - start)).foldlM
    (fun seconds i => (blockSeconds blocks config i).map (seconds + ·)) 0

/-- The range starts with a rapid. -/
def rangeRapid (blocks : List (Block K)) (start stop : ℕ) : Option Bool :=
  if start < stop then blocks[start]?.map Block.rapid else some false

/-- A command with its time. -/
def Slot.resolve (blocks : List (Block K)) (config : MotionConfig K) :
    Slot K → Option (SimStep K)
  | .done step => some step
  | .move start stop => do
    let seconds ← rangeSeconds blocks config start stop
    let rapid ← rangeRapid blocks start stop
    return .move seconds rapid

/-- The times of a program. There are none when a block is looked up that is not there,
which the program would stop at. -/
def simulate (commands : List (PlannerCommand K)) (plannerConfig : PlannerConfig K)
    (motionConfig : MotionConfig K) : Option (List (SimStep K)) :=
  let s := Sim.run commands plannerConfig
  s.slots.mapM (Slot.resolve s.blocks motionConfig)

end Times

end Galdr
