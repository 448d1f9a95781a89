import Galdr.Lookahead
import Galdr.PlannerOps

/-!
# The invariants of the planner

The queue refines a look-ahead path: a block is a segment whose cap is its
greatest entry and whose gain is `2·a·d`, and the two passes of the planner are
the two sweeps of the path (`segments_recalculate`). On that footing, what the
planner keeps between calls is proved once for every small step of planning
and once for every other operation: the blocks are sound and corner within
their cruise speeds (`WellFormed`), and the entry speeds are feasible
(`Planned`).
-/

namespace Galdr

open Lookahead (Feasible Solvable Admissible)

variable {K : Type} [Field K] [LinearOrder K]

/-- What a block is to the look-ahead. -/
def Block.segment (block : Block K) : Lookahead.Segment K where
  cap := block.maxEntrySpeedSq
  gain := 2 * block.acceleration * block.millimeters
  entry := block.entrySpeedSq

namespace Planner

/-- The queue as a path. -/
def segments (p : Planner K) : List (Lookahead.Segment K) :=
  p.blocks.map Block.segment

/-! ## The passes are the sweeps -/

omit [LinearOrder K] in
theorem nextEntrySq_eq (q : List (Block K)) :
    nextEntrySq q = Lookahead.entryOf (q.map Block.segment) := by
  cases q <;> rfl

theorem segment_reversePassFree (q : List (Block K)) :
    (reversePassFree q).map Block.segment
      = Lookahead.lower (q.map Block.segment) := by
  induction q with
  | nil => rfl
  | cons block rest ih =>
    simp only [reversePassFree, List.map_cons, Lookahead.lower, nextEntrySq_eq, ih]
    congr 1

theorem segment_reversePass (headBusy : Bool) (q : List (Block K)) :
    (reversePass headBusy q).map Block.segment
      = Lookahead.reverseSweep headBusy (q.map Block.segment) := by
  cases q with
  | nil => rfl
  | cons block rest =>
    cases headBusy with
    | true => exact congrArg (block.segment :: ·) (segment_reversePassFree rest)
    | false => exact segment_reversePassFree (block :: rest)

theorem segment_forwardPassFrom (reachable : K) (q : List (Block K)) :
    (forwardPassFrom reachable q).map Block.segment
      = Lookahead.limitFrom reachable (q.map Block.segment) := by
  induction q generalizing reachable with
  | nil => rfl
  | cons block rest ih =>
    by_cases h : reachable < block.entrySpeedSq
    · simp only [forwardPassFrom, if_pos h, List.map_cons, ih]
      simp only [Lookahead.limitFrom, Block.segment, Block.withEntry, min_eq_right h.le]
    · simp only [forwardPassFrom, if_neg h, List.map_cons, ih]
      simp only [Lookahead.limitFrom, Block.segment, min_eq_left (not_lt.1 h)]

theorem segment_forwardPass (q : List (Block K)) :
    (forwardPass q).map Block.segment
      = Lookahead.forwardSweep (q.map Block.segment) := by
  cases q with
  | nil => rfl
  | cons block rest => exact congrArg (block.segment :: ·) (segment_forwardPassFrom _ rest)

/-- **Settling the queue solves the path.** -/
theorem segments_recalculate (p : Planner K) :
    p.recalculate.segments = Lookahead.solve p.headBusy p.segments := by
  unfold segments Lookahead.solve
  rw [blocks_recalculate, segment_forwardPass, segment_reversePass]

/-! ## The passes change entries only -/

theorem core_reversePassFree (q : List (Block K)) :
    (reversePassFree q).map (Block.withEntry · 0) = q.map (Block.withEntry · 0) := by
  induction q with
  | nil => rfl
  | cons block rest ih => simp [reversePassFree, ih]

theorem core_forwardPassFrom (reachable : K) (q : List (Block K)) :
    (forwardPassFrom reachable q).map (Block.withEntry · 0)
      = q.map (Block.withEntry · 0) := by
  induction q generalizing reachable with
  | nil => rfl
  | cons block rest ih =>
    simp only [forwardPassFrom, List.map_cons, ih]
    split <;> simp

theorem core_recalculate (p : Planner K) :
    p.recalculate.blocks.map (Block.withEntry · 0)
      = p.blocks.map (Block.withEntry · 0) := by
  have hforward : ∀ q : List (Block K), (forwardPass q).map (Block.withEntry · 0)
      = q.map (Block.withEntry · 0) := by
    intro q
    cases q with
    | nil => rfl
    | cons block rest =>
      exact congrArg (block.withEntry 0 :: ·) (core_forwardPassFrom _ rest)
  rw [blocks_recalculate, hforward]
  cases p.blocks with
  | nil => rfl
  | cons block rest =>
    cases p.headBusy with
    | true => exact congrArg (block.withEntry 0 :: ·) (core_reversePassFree rest)
    | false => exact core_reversePassFree (block :: rest)

omit [LinearOrder K] in
/-- A property of blocks that ignores the entry passes between two queues that
differ in entries only. -/
theorem forall_of_core {P : Block K → Prop} (hP : ∀ b, P (b.withEntry 0) ↔ P b)
    {q r : List (Block K)}
    (h : q.map (Block.withEntry · 0) = r.map (Block.withEntry · 0))
    (hr : ∀ b ∈ r, P b) : ∀ b ∈ q, P b := by
  have hmap : ∀ b ∈ r.map (Block.withEntry · 0), P b := by
    rw [List.forall_mem_map]
    exact fun b hb => (hP b).2 (hr b hb)
  rw [← h, List.forall_mem_map] at hmap
  exact fun b hb => (hP b).1 (hmap b hb)

/-! ## Well-formed planners -/

variable [IsStrictOrderedRing K]

/-- What holds of a planner whatever its entry speeds are. -/
structure WellFormed (p : Planner K) : Prop where
  /-- Every block is sound. -/
  sound : ∀ b ∈ p.blocks, BlockSound b
  /-- The junction state can be cornered with. -/
  cornerable : Cornerable p
  /-- No block may be entered faster than the one before it cruises. -/
  corners : p.blocks.IsChain fun a b => b.maxEntrySpeedSq ≤ a.nominalSpeedSq
  /-- The remembered cruise speed is within that of the newest block. -/
  newest : ∀ b ∈ p.blocks.getLast?, p.prevNominalSpeedSq ≤ b.nominalSpeedSq
  /-- A commitment to a block that was flushed leaves nothing to corner with. -/
  emptied : p.blocks = [] → p.headBusy = true → isZeroVec p.prevUnitVec

omit [IsStrictOrderedRing K] in
theorem BlockSound.nominal_nonneg {b : Block K} (h : BlockSound b) :
    0 ≤ b.nominalSpeedSq :=
  h.maxEntry_nonneg.trans h.maxEntry_le

omit [IsStrictOrderedRing K] in
theorem blockSound_withEntry (b : Block K) : BlockSound (b.withEntry 0) ↔ BlockSound b :=
  ⟨fun h => ⟨h.1, h.2, h.3, h.4, h.5, h.6⟩, fun h => ⟨h.1, h.2, h.3, h.4, h.5, h.6⟩⟩

theorem BlockSound.gain_nonneg {b : Block K} (h : BlockSound b) :
    0 ≤ 2 * b.acceleration * b.millimeters :=
  mul_nonneg (mul_nonneg zero_le_two h.acceleration_pos.le) h.millimeters_pos.le

theorem admissible_of_sound {q : List (Block K)} (h : ∀ b ∈ q, BlockSound b) :
    Admissible (q.map Block.segment) := by
  intro s hs
  obtain ⟨b, hb, rfl⟩ := List.mem_map.1 hs
  exact ⟨(h b hb).maxEntry_nonneg, (h b hb).gain_nonneg⟩

theorem isZeroVec_zero : isZeroVec (fun _ => 0 : Axes K) := by
  intro axis
  rw [abs_zero]
  exact lengthEpsilonMm_pos

theorem wellFormed_new (config : PlannerConfig K) : WellFormed (new config) where
  sound := nofun
  cornerable := ⟨by simp [new], le_rfl⟩
  corners := List.isChain_nil
  newest := nofun
  emptied := fun _ _ => isZeroVec_zero

omit [IsStrictOrderedRing K] in
/-- Only the queue, the junction state and the commitment count. -/
theorem WellFormed.congr {p q : Planner K} (h : WellFormed p)
    (hblocks : q.blocks = p.blocks) (hvec : q.prevUnitVec = p.prevUnitVec)
    (hnom : q.prevNominalSpeedSq = p.prevNominalSpeedSq)
    (hbusy : q.headBusy = p.headBusy) : WellFormed q := by
  refine ⟨?_, ⟨?_, ?_⟩, ?_, ?_, ?_⟩
  · rw [hblocks]
    exact h.sound
  · rw [hvec]
    exact h.cornerable.norm_le
  · rw [hnom]
    exact h.cornerable.nominal_nonneg
  · rw [hblocks]
    exact h.corners
  · rw [hblocks, hnom]
    exact h.newest
  · rw [hblocks, hbusy, hvec]
    exact h.emptied

/-- Dropping the junction state after the end of the queue has been cut. -/
theorem WellFormed.cut {p : Planner K} (h : WellFormed p)
    {queue : Deque (Block K) blockQueueLen} (hq : queue.toList <+: p.blocks) :
    WellFormed { p.flushLookahead with queue := queue } where
  sound := fun b hb => h.sound b (hq.subset hb)
  cornerable := ⟨by simp [flushLookahead], le_rfl⟩
  corners := by
    obtain ⟨rest, hrest⟩ := hq
    have hchain := h.corners
    rw [← hrest, List.isChain_append] at hchain
    exact hchain.1
  newest := fun b hb =>
    (h.sound b (hq.subset (List.mem_of_getLast? hb))).nominal_nonneg
  emptied := fun _ _ => isZeroVec_zero

theorem WellFormed.flushLookahead {p : Planner K} (h : WellFormed p) :
    WellFormed p.flushLookahead :=
  h.cut (List.prefix_refl p.queue.toList)

omit [IsStrictOrderedRing K] in
theorem WellFormed.recalculate {p : Planner K} (h : WellFormed p) :
    WellFormed p.recalculate := by
  have hcore := core_recalculate p
  have hlast : p.recalculate.blocks.getLast?.map (Block.withEntry · 0)
      = p.blocks.getLast?.map (Block.withEntry · 0) := by
    rw [← List.getLast?_map, ← List.getLast?_map, hcore]
  refine ⟨forall_of_core blockSound_withEntry hcore h.sound,
    ⟨h.cornerable.norm_le, h.cornerable.nominal_nonneg⟩, ?_, ?_, ?_⟩
  · have hmap : (p.recalculate.blocks.map (Block.withEntry · 0)).IsChain
        fun a b => b.maxEntrySpeedSq ≤ a.nominalSpeedSq := by
      rw [hcore, List.isChain_map]
      exact h.corners
    rw [List.isChain_map] at hmap
    exact hmap
  · intro b hb
    rw [Option.mem_def.1 hb] at hlast
    obtain ⟨b', hb', hsame⟩ := Option.map_eq_some_iff.1 hlast.symm
    have hnom : (b'.withEntry 0).nominalSpeedSq = (b.withEntry 0).nominalSpeedSq :=
      congrArg Block.nominalSpeedSq hsame
    exact (h.newest b' hb').trans_eq hnom
  · intro hnil
    have hempty : p.blocks = [] := by
      have hlen := congrArg List.length hcore
      rw [List.length_map, List.length_map, hnil] at hlen
      exact List.length_eq_zero_iff.1 hlen.symm
    exact h.emptied hempty

omit [IsStrictOrderedRing K] in
/-- Taking the oldest block. -/
theorem popBlock_eq_some_iff (p p' : Planner K) (block : Block K) :
    p.popBlock = some (block, p') ↔ ∃ rest : Deque (Block K) blockQueueLen,
      p.blocks = block :: rest.toList
        ∧ p' = { p with queue := rest, headBusy := !rest.isEmpty } := by
  unfold popBlock
  constructor
  · intro h
    obtain ⟨⟨b, rest⟩, hpop, heq⟩ := Option.map_eq_some_iff.1 h
    obtain ⟨rfl, rfl⟩ := Prod.mk.inj heq
    exact ⟨rest, (Deque.popFront_eq_some_iff _ _ _).1 hpop, rfl⟩
  · rintro ⟨rest, hblocks, rfl⟩
    rw [(Deque.popFront_eq_some_iff p.queue rest block).2 hblocks]
    rfl

omit [IsStrictOrderedRing K] in
theorem WellFormed.popBlock {p p' : Planner K} {block : Block K} (h : WellFormed p)
    (hpop : p.popBlock = some (block, p')) : WellFormed p' := by
  obtain ⟨rest, hblocks, rfl⟩ := (popBlock_eq_some_iff p p' block).1 hpop
  obtain ⟨hsound, hcornerable, hcorners, hnewest, _⟩ := h
  rw [hblocks] at hsound hcorners hnewest
  refine ⟨fun b hb => hsound b (List.mem_cons_of_mem block hb),
    ⟨hcornerable.norm_le, hcornerable.nominal_nonneg⟩, hcorners.tail, ?_, ?_⟩
  · intro b hb
    refine hnewest b ?_
    cases hrest : rest.toList with
    | nil =>
      rw [blocks, hrest] at hb
      cases hb
    | cons c cs =>
      rw [blocks, hrest] at hb
      rwa [List.getLast?_cons_cons]
  · intro hnil hbusy
    have hempty : rest.isEmpty = true := (Deque.isEmpty_iff rest).2 hnil
    rw [hempty] at hbusy
    cases hbusy

variable [Libm K] [LawfulLibm K]

theorem WellFormed.append {p : Planner K} (h : WellFormed p) {target : Axes Int32}
    {feed : K} {units : Units} {feedMode : FeedMode} {rapid jog : Bool}
    {block : Block K} (room : p.blocks.length < blockQueueLen)
    (hbuild : p.buildBlock target feed units feedMode rapid jog = some block) :
    WellFormed (p.append target block room) := by
  obtain ⟨hsound, hcap⟩ := buildBlock_sound h.cornerable hbuild
  refine ⟨?_, ⟨hsound.unit_norm.le, hsound.nominal_nonneg⟩, ?_, ?_, ?_⟩
  · intro b hb
    rcases List.mem_append.1 hb with hb | hb
    · exact h.sound b hb
    · rw [List.mem_singleton.1 hb]
      exact hsound
  · rw [blocks_append, List.isChain_append]
    refine ⟨h.corners, List.isChain_singleton block, ?_⟩
    intro a ha b hb
    obtain rfl : block = b := by simpa using hb
    exact hcap.trans (h.newest a ha)
  · intro b hb
    obtain rfl : block = b := by simpa using hb
    exact le_rfl
  · intro hnil
    simp at hnil

/-! ## Planned planners -/

/-- The planner is well formed, the committed entry can be kept, and the entry
speeds are feasible once they are settled. -/
structure Planned (s : Bool × Planner K) : Prop where
  /-- The planner is well formed. -/
  wellFormed : WellFormed s.2
  /-- The committed entry can be kept. -/
  solvable : Solvable s.2.headBusy s.2.segments
  /-- Settled entries are feasible. -/
  feasible : s.1 = true → Feasible s.2.segments

omit [LawfulLibm K] in
/-- **A block onto an empty queue with nothing to corner with starts at rest.** -/
theorem buildBlock_from_rest {p : Planner K} (hzero : isZeroVec p.prevUnitVec)
    {target : Axes Int32} {feed : K} {units : Units} {feedMode : FeedMode}
    {rapid jog : Bool} {block : Block K}
    (hbuild : p.buildBlock target feed units feedMode rapid jog = some block) :
    block.maxEntrySpeedSq = 0 := by
  rw [(buildBlock_spec hbuild).maxEntrySpeedSq, junctionSpeedSq, if_pos hzero, capBy_coe]
  exact min_eq_left (buildBlock_nominal hbuild)

/-- Every small step of planning keeps the planner planned. -/
theorem Planned.step {exact : Prop} {s t : Bool × Planner K}
    (hstep : PlanStep exact s t) (h : Planned s) : Planned t := by
  cases hstep with
  | note settled p o ho =>
    exact ⟨h.wellFormed.congr rfl rfl rfl rfl, h.solvable, h.feasible⟩
  | append settled p target feed units feedMode rapid jog block room fits built =>
    have hwf := h.wellFormed.append room built
    have hsound := hwf.sound block (by simp)
    refine ⟨hwf, ?_, fun h => absurd h Bool.false_ne_true⟩
    have hsegs : (p.append target block room).segments
        = p.segments ++ [block.segment] := by
      simp [segments]
    rw [hsegs]
    refine h.solvable.append hsound.maxEntry_nonneg hsound.gain_nonneg ?_
    intro hbusy hnil
    have hempty : p.blocks = [] := List.map_eq_nil_iff.1 hnil
    have hcap := buildBlock_from_rest (h.wellFormed.emptied hempty hbusy) built
    exact (buildBlock_spec built).entrySpeedSq.trans hcap
  | recalculate settled p =>
    have hsolved := segments_recalculate p
    refine ⟨h.wellFormed.recalculate, ?_, fun _ => ?_⟩
    · rw [hsolved]
      exact h.solvable.solve p.headBusy
    · rw [hsolved]
      exact Lookahead.solve_feasible h.solvable
  | flush settled p => exact ⟨h.wellFormed.flushLookahead, h.solvable, h.feasible⟩
  | arc settled p arc =>
    exact ⟨h.wellFormed.congr rfl rfl rfl rfl, h.solvable, h.feasible⟩

/-- Every path of planning keeps the planner planned. -/
theorem Planned.path {exact : Prop} {s t : Bool × Planner K}
    (hpath : PlanPath exact s t) (h : Planned s) : Planned t := by
  induction hpath with
  | refl => exact h
  | tail _ hstep ih => exact ih.step hstep

end Planner

end Galdr
