import Galdr.PlannerContinuity

/-!
# Settling the queue once

An arc appends its segments first and settles the entry speeds once, where a straight move
settles them after its own block. Both leave the same queue. The passes sweep the whole queue, so
what one settling has written the next one writes again, and only the entry of a committed block
is read, which no settling changes. Two planners that differ in nothing else *settle alike*
(`SettlesAs`): they stay so when the same block is appended to both, and settling makes them
equal.
-/

namespace Galdr

variable {K : Type} [Field K] [LinearOrder K]

/-- What one straight move is asked for. -/
structure MoveRequest (K : Type) where
  /-- Where it ends. -/
  target : Axes Int32
  /-- The feed. -/
  feed : K
  /-- The units of the feed. -/
  units : Units
  /-- The mode of the feed. -/
  feedMode : FeedMode
  /-- It is a rapid. -/
  rapid : Bool
  /-- It is a jog. -/
  jog : Bool

namespace Planner

/-! ## Once, and after each block -/

/-- Append blocks. A block that finds no room is refused. -/
def enqueueBlocks (p : Planner K) (blocks : List (Block K)) : Planner K :=
  blocks.foldl (fun p block => (p.enqueue block).2) p

/-- Append blocks and settle the queue after each. -/
def settleBlocks (p : Planner K) (blocks : List (Block K)) : Planner K :=
  blocks.foldl (fun p block => (p.enqueue block).2.recalculate) p

section Moves

variable [Libm K]

/-- Build and append one straight move. -/
def enqueueRequest (p : Planner K) (move : MoveRequest K) : Except PlannerError ℕ × Planner K :=
  p.enqueueMove move.target move.feed move.units move.feedMode move.rapid move.jog

/-- Build and append straight moves. -/
def enqueueMoves (p : Planner K) (moves : List (MoveRequest K)) : Planner K :=
  moves.foldl (fun p move => (p.enqueueRequest move).2) p

/-- Build and append straight moves and settle the queue after each. -/
def settleMoves (p : Planner K) (moves : List (MoveRequest K)) : Planner K :=
  moves.foldl (fun p move => (p.enqueueRequest move).2.recalculate) p

variable [FloorRing K]

/-- Feed the segments of an arc while the queue has room, and settle the queue after each. -/
def settleSegments : ℕ → ArcInProgress K → ℕ → Planner K →
    Except PlannerError (ArcInProgress K × ℕ) × Planner K
  | 0, arc, enqueued, p => (.ok (arc, enqueued), p)
  | remaining + 1, arc, enqueued, p =>
    if p.queue.len < blockQueueLen then
      match p.enqueueMove (arc.segTarget p.config) arc.segFeed arc.units
          arc.feedMode false false with
      | (.ok n, p') => settleSegments remaining arc.advance (enqueued + n) p'.recalculate
      | (.error .queueFull, p') => (.ok (arc, enqueued), p')
      | (.error other, p') => (.error other, p')
    else (.ok (arc, enqueued), p)

/-- Feed the next chunk of an arc with the queue settled after each segment. -/
def settleArcChunk (p : Planner K) (arc : ArcInProgress K) :
    Except PlannerError (PlannerOutcome K) × Planner K :=
  match settleSegments arc.remaining arc 0 p with
  | (.error e, p') =>
    (.error e, { p' with arcInProgress := none }.recalculate)
  | (.ok (arc', enqueued), p') =>
    if arc'.segments < arc'.nextSeg then
      (.ok (.queued enqueued), { p'.recalculate with arcInProgress := none })
    else
      (.ok (.arcPending enqueued), { p'.recalculate with arcInProgress := some arc' })

end Moves

/-! ## What the passes read -/

omit [LinearOrder K] in
theorem withEntry_congr {b c : Block K} (h : b.withEntry 0 = c.withEntry 0) (e : K) :
    b.withEntry e = c.withEntry e := by
  rw [← Block.withEntry_withEntry b 0 e, h, Block.withEntry_withEntry]

/-- The reverse pass reads no entry that it writes. -/
theorem reversePassFree_congr {q r : List (Block K)}
    (h : q.map (Block.withEntry · 0) = r.map (Block.withEntry · 0)) :
    reversePassFree q = reversePassFree r := by
  induction q generalizing r with
  | nil =>
    cases r with
    | nil => rfl
    | cons c r => cases h
  | cons b q ih =>
    cases r with
    | nil => cases h
    | cons c r =>
      obtain ⟨hhead, hrest⟩ := List.cons.inj h
      have hcap : b.maxEntrySpeedSq = c.maxEntrySpeedSq :=
        (congrArg Block.maxEntrySpeedSq hhead :)
      have hacceleration : b.acceleration = c.acceleration :=
        (congrArg Block.acceleration hhead :)
      have hmillimeters : b.millimeters = c.millimeters :=
        (congrArg Block.millimeters hhead :)
      simp only [reversePassFree, ih hrest, hcap, hacceleration, hmillimeters,
        withEntry_congr hhead]

/-- Two planners differ in entry speeds only, and not in that of a committed block. -/
structure SettlesAs (p q : Planner K) : Prop where
  /-- The rest is the same. -/
  rest : q = { p with queue := q.queue }
  /-- The blocks are the same but for their entries. -/
  core : q.blocks.map (Block.withEntry · 0) = p.blocks.map (Block.withEntry · 0)
  /-- A committed block is the same. -/
  head : p.headBusy = true → q.blocks.head? = p.blocks.head?

theorem SettlesAs.refl (p : Planner K) : SettlesAs p p := ⟨rfl, rfl, fun _ => rfl⟩

theorem SettlesAs.exists_queue {p q : Planner K} (h : SettlesAs p q) :
    ∃ queue, q = { p with queue } := ⟨_, h.rest⟩

theorem SettlesAs.length_eq {p q : Planner K} (h : SettlesAs p q) :
    q.blocks.length = p.blocks.length := by
  simpa using congrArg List.length h.core

/-- **Settling makes them equal.** -/
theorem SettlesAs.recalculate_eq {p q : Planner K} (h : SettlesAs p q) :
    q.recalculate = p.recalculate := by
  obtain ⟨hrest, hcore, hhead⟩ := h
  have hreverse : reversePass p.headBusy q.blocks = reversePass p.headBusy p.blocks := by
    cases hp : p.blocks with
    | nil =>
      rw [hp] at hcore
      rw [List.map_eq_nil_iff.1 hcore]
    | cons b rest =>
      cases hq : q.blocks with
      | nil =>
        rw [hp, hq] at hcore
        cases hcore
      | cons c rest' =>
        rw [hp, hq] at hcore hhead
        cases hbusy : p.headBusy with
        | true =>
          obtain rfl : c = b := Option.some.inj (hhead hbusy)
          exact congrArg (c :: ·) (reversePassFree_congr (List.cons.inj hcore).2)
        | false => exact reversePassFree_congr hcore
  have hbusy : q.headBusy = p.headBusy := by rw [hrest]
  have hqueue : q.recalculate.queue = p.recalculate.queue := by
    refine Deque.ext ?_
    change forwardPass (reversePass q.headBusy q.blocks) = forwardPass (reversePass _ p.blocks)
    rw [hbusy, hreverse]
  calc q.recalculate = { q with queue := q.recalculate.queue } := rfl
    _ = { p with queue := p.recalculate.queue } := by rw [hqueue, hrest]
    _ = p.recalculate := rfl

/-- Settling leaves a planner that settles as before. -/
theorem settlesAs_recalculate (p : Planner K) : SettlesAs p p.recalculate := by
  refine ⟨rfl, core_recalculate p, fun hbusy => ?_⟩
  cases hhead : p.recalculate.blocks.head? with
  | some b =>
    obtain ⟨b', hb', -, heq⟩ := head_recalculate p hhead
    rw [heq hbusy]
    exact hb'.symm
  | none =>
    have hcore := core_recalculate p
    rw [List.head?_eq_none_iff.1 hhead] at hcore
    rw [List.map_eq_nil_iff.1 hcore.symm]
    rfl

theorem SettlesAs.trans {p q r : Planner K} (hpq : SettlesAs p q) (hqr : SettlesAs q r) :
    SettlesAs p r := by
  refine ⟨?_, hqr.core.trans hpq.core, fun hbusy => ?_⟩
  · rw [hqr.rest, hpq.rest]
  · have hq : q.headBusy = true := by rw [hpq.rest, hbusy]
    exact (hqr.head hq).trans (hpq.head hbusy)

/-- It makes no difference that one of them is settled. -/
theorem SettlesAs.recalculate {p q : Planner K} (h : SettlesAs p q) :
    SettlesAs p q.recalculate := h.trans (settlesAs_recalculate q)

/-! ## Appending to both -/

/-- The same block is appended to both, or refused by both. -/
theorem SettlesAs.enqueue {p q : Planner K} (h : SettlesAs p q) (block : Block K) :
    (q.enqueue block).1 = (p.enqueue block).1
      ∧ SettlesAs (p.enqueue block).2 (q.enqueue block).2 := by
  obtain ⟨r, rfl⟩ := h.exists_queue
  have hlength : r.toList.length = p.blocks.length := h.length_eq
  unfold Planner.enqueue
  dsimp only
  cases hp : p.queue.pushBack block with
  | none =>
    have hr : r.pushBack block = none := by
      rw [Deque.pushBack_eq_none_iff] at hp ⊢
      exact hlength ▸ hp
    rw [hr]
    exact ⟨rfl, h⟩
  | some p' =>
    obtain ⟨hroom, hp'⟩ := (Deque.pushBack_eq_some_iff _ _ _).1 hp
    have hroom' : r.toList.length < blockQueueLen := hlength ▸ hroom
    have hr : r.pushBack block = some ⟨r.toList ++ [block], by simpa using hroom'⟩ :=
      (Deque.pushBack_eq_some_iff _ _ _).2 ⟨hroom', rfl⟩
    rw [hr]
    refine ⟨rfl, rfl, ?_, fun hbusy => ?_⟩
    · change (r.toList ++ [block]).map _ = p'.toList.map _
      rw [hp', List.map_append, List.map_append]
      exact congrArg (· ++ _) h.core
    · change (r.toList ++ [block]).head? = p'.toList.head?
      rw [hp', List.head?_append, List.head?_append]
      exact congrArg (Option.or · _) (h.head hbusy)

theorem SettlesAs.enqueueBlocks {p q : Planner K} (h : SettlesAs p q)
    (blocks : List (Block K)) : SettlesAs (p.enqueueBlocks blocks) (q.settleBlocks blocks) := by
  induction blocks generalizing p q with
  | nil => exact h
  | cons block blocks ih => exact ih (h.enqueue block).2.recalculate

variable [Libm K]

/-- A move is built alike on both. -/
theorem SettlesAs.enqueueMove {p q : Planner K} (h : SettlesAs p q) (target : Axes Int32)
    (feed : K) (units : Units) (feedMode : FeedMode) (rapid jog : Bool) :
    (q.enqueueMove target feed units feedMode rapid jog).1
        = (p.enqueueMove target feed units feedMode rapid jog).1
      ∧ SettlesAs (p.enqueueMove target feed units feedMode rapid jog).2
        (q.enqueueMove target feed units feedMode rapid jog).2 := by
  obtain ⟨r, rfl⟩ := h.exists_queue
  have hnoted : SettlesAs (p.note (p.deltaOverflows target))
      (Planner.note { p with queue := r } (p.deltaOverflows target)) := ⟨rfl, h.core, h.head⟩
  have hbuild : Planner.buildBlock { p with queue := r } target feed units feedMode rapid jog
      = p.buildBlock target feed units feedMode rapid jog := rfl
  have hover : Planner.deltaOverflows { p with queue := r } target = p.deltaOverflows target := rfl
  unfold Planner.enqueueMove
  rw [hbuild, hover]
  cases p.buildBlock target feed units feedMode rapid jog with
  | none => exact ⟨rfl, hnoted⟩
  | some block =>
    obtain ⟨hresult, hplanner⟩ := hnoted.enqueue block
    unfold note at hresult hplanner
    dsimp only
    generalize Planner.enqueue { p with overflow := p.overflow || p.deltaOverflows target } block
      = s at hresult hplanner ⊢
    generalize Planner.enqueue { p with
      queue := r, overflow := p.overflow || p.deltaOverflows target } block
      = t at hresult hplanner ⊢
    obtain ⟨result, p'⟩ := s
    obtain ⟨result', q'⟩ := t
    obtain rfl : result' = result := hresult
    cases result' with
    | error e => exact ⟨rfl, hplanner⟩
    | ok _ =>
      obtain ⟨r', rfl⟩ := hplanner.exists_queue
      exact ⟨rfl, rfl, hplanner.core, hplanner.head⟩

theorem SettlesAs.enqueueMoves {p q : Planner K} (h : SettlesAs p q)
    (moves : List (MoveRequest K)) : SettlesAs (p.enqueueMoves moves) (q.settleMoves moves) := by
  induction moves generalizing p q with
  | nil => exact h
  | cons move moves ih => exact ih (h.enqueueMove _ _ _ _ _ _).2.recalculate

variable [FloorRing K]

theorem SettlesAs.feedSegments {p q : Planner K} (h : SettlesAs p q) (remaining : ℕ)
    (arc : ArcInProgress K) (enqueued : ℕ) :
    (Planner.settleSegments remaining arc enqueued q).1
        = (Planner.feedSegments remaining arc enqueued p).1
      ∧ SettlesAs (Planner.feedSegments remaining arc enqueued p).2
        (Planner.settleSegments remaining arc enqueued q).2 := by
  induction remaining generalizing arc enqueued p q with
  | zero => exact ⟨rfl, h⟩
  | succ remaining ih =>
    have hconfig : q.config = p.config := by
      rw [h.rest]
    have hlen : q.queue.len = p.queue.len := h.length_eq
    obtain ⟨hresult, hplanner⟩ := h.enqueueMove (arc.segTarget p.config) arc.segFeed arc.units
      arc.feedMode false false
    unfold Planner.settleSegments Planner.feedSegments
    rw [hlen, hconfig]
    split
    · generalize p.enqueueMove (arc.segTarget p.config) arc.segFeed arc.units arc.feedMode false
        false = s at hresult hplanner ⊢
      generalize q.enqueueMove (arc.segTarget p.config) arc.segFeed arc.units arc.feedMode false
        false = t at hresult hplanner ⊢
      obtain ⟨result, p'⟩ := s
      obtain ⟨result', q'⟩ := t
      obtain rfl : result' = result := hresult
      cases result' with
      | ok n => exact ih hplanner.recalculate _ _
      | error e =>
        cases e with
        | queueFull => exact ⟨rfl, hplanner⟩
        | _ => exact ⟨rfl, hplanner⟩
    · exact ⟨rfl, h⟩

/-! ## The same queue -/

/-- **One settling is as good as one after each block.** Whatever the planner holds, and whatever
is appended to it with no block taken in between, settling the queue once at the end leaves the
planner that settling it after each block leaves: blocks of any lengths, accelerations and caps,
straight moves that the planner builds itself, and a chunk of an arc. -/
theorem recalculate_once (p : Planner K) :
    (∀ blocks last, (p.enqueueBlocks (blocks ++ [last])).recalculate
        = p.settleBlocks (blocks ++ [last]))
      ∧ (∀ moves last, (p.enqueueMoves (moves ++ [last])).recalculate
        = p.settleMoves (moves ++ [last]))
      ∧ ∀ arc, p.enqueueArcChunk arc = p.settleArcChunk arc := by
  refine ⟨fun blocks last => ?_, fun moves last => ?_, fun arc => ?_⟩
  · have h := ((SettlesAs.refl p).enqueueBlocks blocks).enqueue last
    unfold enqueueBlocks settleBlocks at h ⊢
    rw [List.foldl_append, List.foldl_append]
    exact h.2.recalculate_eq.symm
  · have h := ((SettlesAs.refl p).enqueueMoves moves).enqueueMove last.target last.feed last.units
      last.feedMode last.rapid last.jog
    unfold enqueueMoves settleMoves at h ⊢
    rw [List.foldl_append, List.foldl_append]
    exact h.2.recalculate_eq.symm
  · obtain ⟨hresult, hplanner⟩ := (SettlesAs.refl p).feedSegments arc.remaining arc 0
    unfold enqueueArcChunk settleArcChunk
    generalize feedSegments arc.remaining arc 0 p = s at hresult hplanner ⊢
    generalize settleSegments arc.remaining arc 0 p = t at hresult hplanner ⊢
    obtain ⟨result, p'⟩ := s
    obtain ⟨result', q'⟩ := t
    obtain rfl : result' = result := hresult
    have hsettle := hplanner.recalculate_eq
    cases result' with
    | error e =>
      have hnone : { q' with arcInProgress := none }.recalculate
          = { q'.recalculate with arcInProgress := none } := rfl
      dsimp only
      rw [hnone, hsettle]
      rfl
    | ok fed =>
      dsimp only
      rw [hsettle]

end Planner

end Galdr
