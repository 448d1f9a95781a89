import Galdr.MotionProfile
import Galdr.PlannerContinuity
import Galdr.BlockLimits

/-!
# Entry and exit speeds of queued blocks

Whatever is done to the planner, in whatever order, every queued block is sound
and its entry is between rest and its cap (`Entered`). With the exit speed it
will be taken with, the entry of the block behind it or rest, it can be handed
to the generator (`Entered.runnable`). When jogs are cancelled among jogs, the
block can also change from the one to the other (`changes_run`).
-/

namespace Galdr

open Lookahead (Bounded)

variable {K : Type} [Field K] [LinearOrder K]

/-- The blocks of a queue with the exit speeds they will be taken with. -/
def exits : List (Block K) → List (Block K × K)
  | [] => []
  | block :: rest => (block, Planner.nextEntrySq rest) :: exits rest

omit [LinearOrder K] in
/-- The exit of a block is the entry of the next. -/
theorem exits_isChain (q : List (Block K)) :
    (exits q).IsChain fun e next => e.2 = next.1.entrySpeedSq := by
  induction q with
  | nil => exact .nil
  | cons block rest ih =>
    cases rest with
    | nil => exact .singleton _
    | cons next rest => exact List.isChain_cons_cons.2 ⟨rfl, ih⟩

omit [LinearOrder K] in
/-- The blocks of the exits are the blocks of the queue. -/
theorem mem_of_mem_exits {q : List (Block K)} {e : Block K × K} (h : e ∈ exits q) :
    e.1 ∈ q := by
  induction q with
  | nil => exact absurd h List.not_mem_nil
  | cons block rest ih =>
    rcases List.mem_cons.1 h with rfl | h
    · exact List.mem_cons_self
    · exact List.mem_cons_of_mem _ (ih h)

namespace Planner

/-- What is taken is the first block with its exit. -/
theorem takeBlock_eq_some {p p' : Planner K} {block : Block K} {exitSq : K}
    (h : p.takeBlock = some (block, exitSq, p')) : (block, exitSq) ∈ exits p.blocks := by
  obtain ⟨⟨b, q⟩, hpop, heq⟩ := Option.map_eq_some_iff.1 h
  obtain ⟨rest, hblocks, hq⟩ := (popBlock_eq_some_iff p q b).1 hpop
  obtain ⟨rfl, hrest⟩ := Prod.mk.inj heq
  obtain ⟨rfl, rfl⟩ := Prod.mk.inj hrest
  have hexit : (q.peekBlock.map Block.entrySpeedSq).getD 0 = nextEntrySq rest.toList := by
    rw [hq]
    show (rest.toList.head?.map Block.entrySpeedSq).getD 0 = _
    cases rest.toList <;> rfl
  rw [hblocks]
  show _ ∈ (b, nextEntrySq rest.toList) :: _
  rw [hexit]
  exact List.mem_cons_self

/-- A queue with blocks can be taken from. -/
theorem exists_takeBlock {p : Planner K} (h : p.blocks ≠ []) :
    ∃ block exitSq p', p.takeBlock = some (block, exitSq, p') := by
  cases hpop : p.popBlock with
  | none =>
    exact absurd ((Deque.popFront_eq_none_iff _).1 (Option.map_eq_none_iff.1 hpop)) h
  | some taken =>
    unfold takeBlock
    rw [hpop]
    exact ⟨_, _, _, rfl⟩

section

variable [FloorRing K] [Libm K]

/-- A move that is one, planned onto an empty queue, can be taken. -/
theorem exists_takeBlock_moveX (config : PlannerConfig K) (rapid : Bool) (x feed : K)
    (hmove : ¬NoMove config ((new config).stepDelta
      ((new config).resolveTarget ⟨some x, none, none, none⟩ .millimeter .absolute false))) :
    ∃ block exitSq p, ((new config).apply (.plan (.moveX rapid x feed) none)).takeBlock
      = some (block, exitSq, p) := by
  set target := (new config).resolveTarget ⟨some x, none, none, none⟩ .millimeter .absolute
    false with htarget
  have happly : (new config).apply (.plan (.moveX rapid x feed) none)
      = ((new config).planLine target feed .millimeter .unitsPerMin rapid).2 := by
    show ((new config).planCommandWithLimits (.moveX rapid x feed) none).2 = _
    simp only [PlannerCommand.moveX, planCommandWithLimits, checkTravel]
    rw [← htarget]
    cases (new config).planLine target feed .millimeter .unitsPerMin rapid with
    | mk result p => cases result <;> rfl
  apply exists_takeBlock
  rcases enqueueMove_cases (new config) target feed .millimeter .unitsPerMin rapid false with
    ⟨hnone, _⟩ | ⟨block, room, _, hmoved⟩ | ⟨hfull, _⟩
  · exact absurd hnone hmove
  · have hlength : ((new config).apply (.plan (.moveX rapid x feed) none)).blocks.length
        = 1 := by
      rw [happly]
      unfold planLine
      rw [hmoved]
      show (forwardPass (reversePass false [block])).length = 1
      rw [length_forwardPass, length_reversePass]
      rfl
    rw [← List.length_pos_iff, hlength]
    exact Nat.one_pos
  · exact absurd hfull (by show ¬32 ≤ 0; decide)

end

variable [IsStrictOrderedRing K]

/-- The queue is well formed and its entries are within their bounds. -/
structure Entered (p : Planner K) : Prop where
  /-- The planner is well formed. -/
  wellFormed : WellFormed p
  /-- The entries are within their bounds. -/
  bounded : Bounded p.segments

theorem entered_new (config : PlannerConfig K) : Entered (new config) :=
  ⟨wellFormed_new config, fun _ h => absurd h List.not_mem_nil⟩

/-- Cutting the end off a queue. -/
theorem Entered.cut {p : Planner K} (h : Entered p)
    {queue : Deque (Block K) blockQueueLen} (hq : queue.toList <+: p.blocks) :
    Entered { p.flushLookahead with queue := queue } :=
  ⟨h.wellFormed.cut hq, fun s hs => h.bounded s (hq.map Block.segment |>.subset hs)⟩

omit [IsStrictOrderedRing K] in
theorem Entered.popBlock {p p' : Planner K} {block : Block K} (h : Entered p)
    (hpop : p.popBlock = some (block, p')) : Entered p' := by
  have hwf := h.wellFormed.popBlock hpop
  obtain ⟨rest, hblocks, rfl⟩ := (popBlock_eq_some_iff p p' block).1 hpop
  refine ⟨hwf, fun s hs => h.bounded s ?_⟩
  unfold segments
  rw [hblocks]
  exact List.mem_cons_of_mem _ hs

variable [Libm K] [LawfulLibm K]

/-- Every small step of planning keeps the entries within their bounds. -/
theorem Entered.step {exact : Prop} {s t : Bool × Planner K}
    (hstep : PlanStep exact s t) (h : Entered s.2) : Entered t.2 := by
  cases hstep with
  | note settled p o ho => exact ⟨h.wellFormed.congr rfl rfl rfl rfl, h.bounded⟩
  | append settled p target feed units feedMode rapid jog block room fits built =>
    have hwf := h.wellFormed.append room built
    refine ⟨hwf, fun s hs => ?_⟩
    have hsegs : (p.append target block room).segments = p.segments ++ [block.segment] := by
      simp [segments]
    rw [hsegs] at hs
    rcases List.mem_append.1 hs with hs | hs
    · exact h.bounded s hs
    · rw [List.mem_singleton.1 hs]
      have hsound := hwf.sound block (by simp)
      show 0 ≤ block.entrySpeedSq ∧ block.entrySpeedSq ≤ block.maxEntrySpeedSq
      rw [(buildBlock_spec built).entrySpeedSq]
      exact ⟨hsound.maxEntry_nonneg, le_rfl⟩
  | recalculate settled p =>
    refine ⟨h.wellFormed.recalculate, ?_⟩
    rw [segments_recalculate]
    exact h.bounded.solve (admissible_of_sound h.wellFormed.sound) _
  | flush settled p => exact ⟨h.wellFormed.flushLookahead, h.bounded⟩
  | arc settled p arc => exact ⟨h.wellFormed.congr rfl rfl rfl rfl, h.bounded⟩

theorem Entered.path {exact : Prop} {s t : Bool × Planner K}
    (hpath : PlanPath exact s t) (h : Entered s.2) : Entered t.2 := by
  induction hpath with
  | refl => exact h
  | tail _ hstep ih => exact ih.step hstep

variable [FloorRing K]

/-- Every operation keeps the entries within their bounds. -/
theorem Entered.apply {p : Planner K} (op : PlannerOp K) (h : Entered p) :
    Entered (p.apply op) := by
  cases hplans : op.plans with
  | true => exact h.path (apply_path p hplans fun (h : False) => h.elim)
  | false =>
    cases op with
    | plan | jog | goToPredefined | resumeArc | abortArc => cases hplans
    | popBlock =>
      show Entered ((p.popBlock.map Prod.snd).getD p)
      cases hpop : p.popBlock with
      | none => exact h
      | some taken =>
        obtain ⟨block, p'⟩ := taken
        exact h.popBlock hpop
    | flushJogBlocks => exact h.cut (List.rdropWhile_prefix _ _)
    | flushQueue => exact h.cut List.nil_prefix
    | syncPosition steps =>
      exact ⟨h.wellFormed.flushLookahead.congr rfl rfl rfl rfl, h.bounded⟩
    | setConfig config =>
      exact ⟨h.wellFormed.flushLookahead.congr rfl rfl rfl rfl, h.bounded⟩
    | setWorkOffset wco => exact ⟨h.wellFormed.congr rfl rfl rfl rfl, h.bounded⟩

/-- **The entries are within their bounds in every state any run reaches.** -/
theorem entered_run (config : PlannerConfig K) (ops : List (PlannerOp K)) :
    Entered (ops.foldl Planner.apply (new config)) := by
  have hrun : ∀ p : Planner K, Entered p → Entered (ops.foldl Planner.apply p) := by
    induction ops with
    | nil => exact fun p h => h
    | cons op ops ih => exact fun p h => ih (p.apply op) (h.apply op)
  exact hrun _ (entered_new config)

omit [IsStrictOrderedRing K] [Libm K] [LawfulLibm K] [FloorRing K] in
/-- A list of blocks as the planner keeps them can be run. -/
theorem runnable_of_chain {q : List (Block K)} (hsound : ∀ b ∈ q, BlockSound b)
    (hentry : ∀ b ∈ q, 0 ≤ b.entrySpeedSq ∧ b.entrySpeedSq ≤ b.maxEntrySpeedSq)
    (hcorners : q.IsChain fun a b => b.maxEntrySpeedSq ≤ a.nominalSpeedSq) :
    ∀ e ∈ exits q, BlockSound e.1
      ∧ Runnable e.1 e.1.entrySpeedSq e.1.nominalSpeedSq e.2 := by
  induction q with
  | nil => exact fun e h => absurd h List.not_mem_nil
  | cons block rest ih =>
    intro e he
    rcases List.mem_cons.1 he with rfl | he
    · have hb := hsound block List.mem_cons_self
      obtain ⟨h0, hcap⟩ := hentry block List.mem_cons_self
      have hexit : 0 ≤ nextEntrySq rest ∧ nextEntrySq rest ≤ block.nominalSpeedSq := by
        cases rest with
        | nil => exact ⟨le_rfl, hb.nominal_nonneg⟩
        | cons c rest =>
          obtain ⟨hc0, hccap⟩ := hentry c (by simp)
          exact ⟨hc0, hccap.trans (List.isChain_cons_cons.1 hcorners).1⟩
      exact ⟨hb, hb.millimeters_pos, hb.acceleration_pos, h0, hcap.trans hb.maxEntry_le,
        hexit.1, hexit.2⟩
    · exact ih (fun b hb => hsound b (List.mem_cons_of_mem _ hb))
        (fun b hb => hentry b (List.mem_cons_of_mem _ hb)) hcorners.tail e he

omit [IsStrictOrderedRing K] [Libm K] [LawfulLibm K] [FloorRing K] in
/-- **Every queued block can be run with its exit.** -/
theorem Entered.runnable {p : Planner K} (h : Entered p) :
    ∀ e ∈ exits p.blocks, BlockSound e.1
      ∧ Runnable e.1 e.1.entrySpeedSq e.1.nominalSpeedSq e.2 :=
  runnable_of_chain h.wellFormed.sound
    (fun b hb => h.bounded b.segment (List.mem_map_of_mem hb)) h.wellFormed.corners

omit [IsStrictOrderedRing K] [Libm K] [LawfulLibm K] [FloorRing K] in
/-- Every block of a feasible queue can change from its entry to its exit. -/
theorem changes_of_feasible {q : List (Block K)}
    (h : Lookahead.Feasible (q.map Block.segment)) :
    ∀ e ∈ exits q, |e.2 - e.1.entrySpeedSq|
      ≤ 2 * e.1.acceleration * e.1.millimeters := by
  induction q with
  | nil => exact fun e h => absurd h List.not_mem_nil
  | cons block rest ih =>
    obtain ⟨_, hchange, hrest⟩ := h
    intro e he
    rcases List.mem_cons.1 he with rfl | he
    · rw [← nextEntrySq_eq] at hchange
      exact hchange
    · exact ih hrest e he

/-- **Every queued block can change from its entry to its exit**, when jogs are
cancelled among jogs. -/
theorem changes_run {config : PlannerConfig K} {ops : List (PlannerOp K)}
    (h : Runs.Allowed Planner.apply JogsApart (new config) ops) :
    ∀ e ∈ exits (ops.foldl Planner.apply (new config)).blocks,
      |e.2 - e.1.entrySpeedSq| ≤ 2 * e.1.acceleration * e.1.millimeters :=
  changes_of_feasible ((planned_run h).feasible rfl)

/-- Over the reals, 10 mm along X are a move. -/
theorem exists_takeBlock_bench (rapid : Bool) (feed : ℝ) :
    ∃ block exitSq p, ((new benchConfig).apply (.plan (.moveX rapid 10 feed) none)).takeBlock
      = some (block, exitSq, p) := by
  refine exists_takeBlock_moveX benchConfig rapid 10 feed ?_
  have htarget : (new (benchConfig (K := ℝ))).stepDelta
      ((new (benchConfig (K := ℝ))).resolveTarget ⟨some 10, none, none, none⟩ .millimeter
        .absolute false) = ![1000, 0, 0, 0] := by
    have hx : mmToSteps (10 * 1 + 0 : ℝ) 100 = 1000 := by
      unfold mmToSteps roundToI32
      rw [show (10 * 1 + 0) * 100 = ((1000 : ℤ) : ℝ) by norm_num, roundf_intCast]
      decide
    funext axis
    fin_cases axis
    · show mmToSteps (10 * 1 + 0 : ℝ) 100 - 0 = 1000
      rw [hx]
      decide
    all_goals exact Int32.sub_self 0
  rw [htarget]
  rintro (hshort | hnone)
  · rw [lengthMm_tenX] at hshort
    unfold lengthEpsilonMm at hshort
    norm_num at hshort
  · exact absurd hnone (by decide)

end Planner

end Galdr
