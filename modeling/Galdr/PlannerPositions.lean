import Galdr.PlannerFeasible

/-!
# Step bookkeeping over runs of the planner

The planner's position and the steps of its blocks are 32-bit. A block gets the
wrapping difference of two saturated positions, so that the steps of all blocks
add up to the change of position only as long as every such difference fits
(`run_balanced`). That is a condition on the moves asked for: two moves to the
far ends of the range do not meet it (`far_moves_overflow`).
-/

namespace Galdr

variable {K : Type} [Field K] [LinearOrder K]

/-- The step count of an axis with the sign of its direction bit. -/
def Block.signedSteps (block : Block K) (axis : Fin 4) : ℤ :=
  if 0 ≤ block.steps axis then ((block.steps axis).toInt.natAbs : ℤ)
  else -((block.steps axis).toInt.natAbs : ℤ)

omit [Field K] [LinearOrder K] in
theorem Block.signedSteps_eq (block : Block K) (axis : Fin 4) :
    block.signedSteps axis = (block.steps axis).toInt := by
  have hsign : (0 : Int32) ≤ block.steps axis ↔ 0 ≤ (block.steps axis).toInt :=
    Int32.le_iff_toInt_le
  unfold signedSteps
  by_cases h : (0 : Int32) ≤ block.steps axis
  · rw [if_pos h]
    exact Int.natAbs_of_nonneg (hsign.1 h)
  · rw [if_neg h]
    have hneg := mt hsign.2 h
    omega

omit [LinearOrder K] in
/-- The block of a probe from the live position to its target. -/
def probeBlockTo (start target : Axes Int32) : Block K :=
  .placeholder fun axis => target axis - start axis

omit [LinearOrder K] in
/-- A probe block steps as far as the target is away, where the difference fits. -/
theorem signedSteps_probeBlockTo {start target : Axes Int32}
    (h : ∀ axis, SubFits (target axis) (start axis)) (axis : Fin 4) :
    (probeBlockTo start target : Block K).signedSteps axis
      = (target axis).toInt - (start axis).toInt := by
  rw [Block.signedSteps_eq]
  exact toInt_sub_of_fits (h axis)

/-- The signed steps of a list of blocks on an axis. -/
def totalSteps (q : List (Block K)) (axis : Fin 4) : ℤ :=
  (q.map fun b => b.signedSteps axis).sum

omit [LinearOrder K] in
theorem totalSteps_of_core {q r : List (Block K)}
    (h : q.map (Block.withEntry · 0) = r.map (Block.withEntry · 0)) (axis : Fin 4) :
    totalSteps q axis = totalSteps r axis := by
  have hcore : ∀ l : List (Block K), totalSteps l axis
      = ((l.map (Block.withEntry · 0)).map fun b => b.signedSteps axis).sum := by
    intro l
    rw [List.map_map]
    rfl
  rw [hcore, hcore, h]

namespace Planner

variable [Libm K]

/-- **What a path appends.** A path only adds blocks behind those it finds. When
it is exact it overflows nowhere, and the blocks it adds step as far as it moves
the position. -/
theorem path_appends {exact : Prop} {s t : Bool × Planner K}
    (hpath : PlanPath exact s t) : ∃ added : List (Block K),
      t.2.blocks.map (Block.withEntry · 0)
          = s.2.blocks.map (Block.withEntry · 0) ++ added.map (Block.withEntry · 0)
        ∧ (exact → t.2.overflow = s.2.overflow
          ∧ ∀ axis, (t.2.positionSteps axis).toInt
            = (s.2.positionSteps axis).toInt + totalSteps added axis) := by
  induction hpath with
  | refl => exact ⟨[], by simp, fun _ => ⟨rfl, by simp [totalSteps]⟩⟩
  | tail _ hstep ih =>
    obtain ⟨added, hblocks, hbooked⟩ := ih
    cases hstep with
    | note settled q o ho =>
      refine ⟨added, hblocks, fun h => ⟨?_, (hbooked h).2⟩⟩
      rw [← (hbooked h).1, ho h]
      exact Bool.or_false _
    | append settled q target feed units feedMode rapid jog block room fits built =>
      refine ⟨added ++ [block], ?_, fun h => ⟨(hbooked h).1, fun axis => ?_⟩⟩
      · rw [blocks_append, List.map_append, hblocks, List.map_append, List.append_assoc]
      · have hsteps : block.signedSteps axis
            = (target axis).toInt - (q.positionSteps axis).toInt := by
          rw [Block.signedSteps_eq, (buildBlock_spec built).steps]
          exact toInt_sub_of_fits (fits h axis)
        have hq := (hbooked h).2 axis
        show (target axis).toInt = _
        simp only [totalSteps, List.map_append, List.map_singleton, List.sum_append,
          List.sum_singleton, hsteps] at hq ⊢
        omega
    | recalculate settled q =>
      exact ⟨added, (core_recalculate q).trans hblocks, hbooked⟩
    | flush settled q => exact ⟨added, hblocks, hbooked⟩
    | arc settled q arc => exact ⟨added, hblocks, hbooked⟩

end Planner

/-- The planner, with the blocks enqueued since its position was last set. -/
structure Ledger (K : Type) [Field K] [LinearOrder K] where
  /-- The planner. -/
  planner : Planner K
  /-- The position that was set. -/
  origin : Axes Int32
  /-- The blocks enqueued since, oldest first. -/
  enqueued : List (Block K)

namespace Ledger

/-- A ledger of a fresh planner. -/
def new (config : PlannerConfig K) : Ledger K := ⟨.new config, fun _ => 0, []⟩

variable [FloorRing K] [Libm K]

/-- An operation on the planner: the blocks it appends are entered, and setting
the position opens a new account. -/
def step (l : Ledger K) (op : PlannerOp K) : Ledger K :=
  let planner := l.planner.apply op
  match op with
  | .syncPosition steps => ⟨planner, steps, []⟩
  | op =>
    if op.plans then
      ⟨planner, l.origin, l.enqueued ++ planner.blocks.drop l.planner.blocks.length⟩
    else { l with planner := planner }

omit [FloorRing K] [Libm K] in
/-- No step subtraction has left the 32-bit range, and on every axis the steps
enqueued are the change of position. -/
def Balanced (l : Ledger K) : Prop :=
  l.planner.overflow = false ∧ ∀ axis, totalSteps l.enqueued axis
    = (l.planner.positionSteps axis).toInt - (l.origin axis).toInt

theorem Balanced.step {l : Ledger K} (op : PlannerOp K) (h : l.Balanced)
    (hguard : l.planner.OpExact op) : (l.step op).Balanced := by
  obtain ⟨hflow, hsum⟩ := h
  cases hplans : op.plans with
  | true =>
    have hpath := Planner.apply_path l.planner hplans fun (_ : True) => hguard
    obtain ⟨added, hblocks, hbooked⟩ := Planner.path_appends hpath
    obtain ⟨hkeep, hpos⟩ := hbooked trivial
    have hstep : l.step op = ⟨l.planner.apply op, l.origin,
        l.enqueued ++ (l.planner.apply op).blocks.drop l.planner.blocks.length⟩ := by
      cases op with
      | syncPosition steps => cases hplans
      | _ => simp [Ledger.step, hplans]
    have hadded : ((l.planner.apply op).blocks.drop l.planner.blocks.length).map
        (Block.withEntry · 0) = added.map (Block.withEntry · 0) := by
      rw [List.map_drop, hblocks]
      exact List.drop_left' (List.length_map _)
    rw [hstep]
    refine ⟨hkeep.trans hflow, fun axis => ?_⟩
    have hnew := totalSteps_of_core hadded axis
    have hold := hsum axis
    have hmoved := hpos axis
    simp only [totalSteps, List.map_append, List.sum_append] at hnew hold hmoved ⊢
    rw [hnew, hold, hmoved]
    omega
  | false =>
    cases op with
    | plan | jog | goToPredefined | resumeArc | abortArc => cases hplans
    | popBlock =>
      cases hpop : l.planner.popBlock with
      | none => simpa [Ledger.step, PlannerOp.plans, Planner.apply, hpop] using ⟨hflow, hsum⟩
      | some taken =>
        obtain ⟨block, p'⟩ := taken
        obtain ⟨rest, -, hp'⟩ := (Planner.popBlock_eq_some_iff _ _ _).1 hpop
        have hsame : p'.overflow = l.planner.overflow
            ∧ p'.positionSteps = l.planner.positionSteps := by
          rw [hp']
          exact ⟨rfl, rfl⟩
        simp only [Ledger.step, PlannerOp.plans, Planner.apply, hpop, Option.map_some,
          Option.getD_some, Bool.false_eq_true, if_false]
        exact ⟨hsame.1.trans hflow, fun axis => by rw [hsame.2]; exact hsum axis⟩
    | flushJogBlocks => exact ⟨hflow, hsum⟩
    | flushQueue => exact ⟨hflow, hsum⟩
    | syncPosition steps => exact ⟨hflow, fun axis => (sub_self _).symm⟩
    | setConfig config => exact ⟨hflow, hsum⟩
    | setWorkOffset wco => exact ⟨hflow, hsum⟩

/-- **Step bookkeeping is exact** in every run whose targets are each a 32-bit
difference away, and so is the block of a probe. -/
theorem run_balanced (config : PlannerConfig K) (ops : List (PlannerOp K))
    (h : Runs.Allowed step (fun l op => l.planner.OpExact op) (new config) ops) :
    (ops.foldl step (new config)).Balanced
      ∧ ∀ start target : Axes Int32, (∀ axis, SubFits (target axis) (start axis)) →
        ∀ axis, (probeBlockTo start target : Block K).signedSteps axis
          = (target axis).toInt - (start axis).toInt :=
  ⟨h.invariant (fun _ op hl hop => Balanced.step op hl hop)
    ⟨rfl, fun _ => rfl⟩, fun _ _ hfits => signedSteps_probeBlockTo hfits⟩

theorem run_balanced_bench :
    Runs.Allowed step (fun l op => l.planner.OpExact op) (new (benchConfig (K := ℚ)))
        [.plan (.moveX false 10 600) none]
      ∧ (([.plan (.moveX false 10 600) none] : List (PlannerOp ℚ)).foldl step
        (new benchConfig)).Balanced := by
  have hallowed : Runs.Allowed step (fun l op => l.planner.OpExact op)
      (new (benchConfig (K := ℚ))) [.plan (.moveX false 10 600) none] := by
    have hfits : ∀ axis, SubFits
        ((Planner.new (benchConfig (K := ℚ))).resolveTarget ⟨some 10, none, none, none⟩
          .millimeter .absolute false axis) 0 := by
      decide +kernel
    exact ⟨⟨nofun, fun _ => hfits⟩, trivial⟩
  exact ⟨hallowed, (run_balanced benchConfig _ hallowed).1⟩

/-- Two rapids, to the two far ends of the 32-bit range. -/
def farRun : List (PlannerOp ℚ) :=
  [.plan (.moveX true 30000000 0) none, .plan (.moveX true (-30000000) 0) none]

/-- **Two far moves overflow.** Both targets saturate, their difference does not
fit, and the second block steps once, the wrong way. -/
theorem far_moves_overflow :
    (farRun.foldl step (new benchConfig)).planner.overflow = true
      ∧ totalSteps (farRun.foldl step (new benchConfig)).enqueued xAxis = 2147483648
      ∧ ((farRun.foldl step (new benchConfig)).planner.positionSteps xAxis).toInt
        = -2147483648 := by
  decide +kernel

end Ledger

end Galdr
