import Galdr.PlannerFeasible

/-!
# Continuous speed over runs of the planner

A block is executed from its planned entry to the entry of the block behind it,
or to rest when there is none. What is executed next starts at that speed, as
long as no block is planned onto an empty queue with a corner to run through,
and no block whose entry is committed is flushed (`run_continuous`). The
junction state does not notice that the queue has run dry, so the first
condition does not hold of every run (`planned_after_drain_discontinuous`).
-/

namespace Galdr

open Lookahead (Feasible Solvable Admissible)

variable {K : Type} [Field K] [LinearOrder K]

namespace Planner

/-! ## The oldest block while planning -/

/-- Settling the queue changes the entry of the oldest block only, and not even
that when it is committed. -/
theorem head_recalculate (p : Planner K) {b : Block K}
    (hb : b ∈ p.recalculate.blocks.head?) :
    ∃ b' ∈ p.blocks.head?, b.withEntry 0 = b'.withEntry 0
      ∧ (p.headBusy = true → b = b') := by
  rw [blocks_recalculate] at hb
  cases hblocks : p.blocks with
  | nil =>
    rw [hblocks] at hb
    cases hb
  | cons c rest =>
    rw [hblocks] at hb
    refine ⟨c, rfl, ?_⟩
    cases hbusy : p.headBusy with
    | true =>
      rw [hbusy] at hb
      obtain rfl : c = b := by simpa [reversePass, forwardPass] using hb
      exact ⟨rfl, fun _ => rfl⟩
    | false =>
      rw [hbusy] at hb
      simp only [reversePass, reversePassFree, forwardPass, Bool.false_eq_true,
        if_false, List.head?_cons, Option.mem_def, Option.some.injEq] at hb
      rw [← hb]
      exact ⟨rfl, fun h => absurd h Bool.false_ne_true⟩

variable [IsStrictOrderedRing K]

/-- Settling the queue leaves an oldest block that may not be entered moving at
rest. -/
theorem entry_recalculate {p : Planner K} (hwf : WellFormed p)
    (hbusy : p.headBusy = false) {b : Block K} (hb : b ∈ p.recalculate.blocks.head?)
    (hcap : b.maxEntrySpeedSq = 0) : b.entrySpeedSq = 0 := by
  have hsegs := segments_recalculate p
  have hadm := admissible_of_sound hwf.sound
  rw [segments, segments, hbusy] at hsegs
  have hsolved : Solvable false (p.blocks.map Block.segment) := ⟨hadm, fun h => absurd h Bool.false_ne_true⟩
  have hfeasible := Lookahead.solve_feasible hsolved
  rw [← hsegs] at hfeasible
  obtain ⟨rest, hrest⟩ : ∃ rest, p.recalculate.blocks = b :: rest :=
    List.head?_eq_some_iff.1 hb
  rw [hrest] at hfeasible
  have hbounds := hfeasible.1
  exact le_antisymm (hbounds.2.trans_eq hcap) hbounds.1

variable [Libm K]

/-- What a path of planning from `p` to `q` does to the oldest block. -/
structure HeadKept (p q : Planner K) : Prop where
  /-- The commitment stands. -/
  busy : q.headBusy = p.headBusy
  /-- The queue is not emptied. -/
  nonempty : q.blocks = [] → p.blocks = []
  /-- A committed block stays as it is. -/
  committed : p.headBusy = true → ∀ b ∈ p.blocks.head?, b ∈ q.blocks.head?
  /-- The oldest block keeps its cap. -/
  cap : ∀ b ∈ p.blocks.head?, ∀ b' ∈ q.blocks.head?,
    b'.maxEntrySpeedSq = b.maxEntrySpeedSq
  /-- A first block corners with what `p` remembers, or starts from rest. -/
  first : p.blocks = [] → ∀ b ∈ q.blocks.head?,
    (q.headBusy = true → b.entrySpeedSq = b.maxEntrySpeedSq)
      ∧ (b.maxEntrySpeedSq = 0 ∨ b.maxEntrySpeedSq
        = capBy (p.junctionSpeedSq b.unitVec b.acceleration) b.nominalSpeedSq)
  /-- Until there is a block, the junction state is that of `p` or dropped. -/
  fresh : q.blocks = [] →
    isZeroVec q.prevUnitVec ∨ q.junctionSpeedSq = p.junctionSpeedSq

omit [IsStrictOrderedRing K] in
theorem HeadKept.refl (p : Planner K) : HeadKept p p where
  busy := rfl
  nonempty := id
  committed := fun _ _ hb => hb
  cap := fun _ hb _ hb' => congrArg Block.maxEntrySpeedSq (Option.mem_unique hb' hb)
  first := by
    intro hnil b hb
    rw [hnil] at hb
    cases hb
  fresh := fun _ => Or.inr rfl

theorem HeadKept.step {exact : Prop} {p : Planner K} {s t : Bool × Planner K}
    (hstep : PlanStep exact s t) (h : HeadKept p s.2) : HeadKept p t.2 := by
  cases hstep with
  | note settled q o ho => exact ⟨h.1, h.2, h.3, h.4, h.5, h.6⟩
  | arc settled q arc => exact ⟨h.1, h.2, h.3, h.4, h.5, h.6⟩
  | flush settled q => exact ⟨h.1, h.2, h.3, h.4, h.5, fun _ => Or.inl isZeroVec_zero⟩
  | recalculate settled q =>
    have hlen : q.recalculate.blocks = [] → q.blocks = [] := by
      intro hnil
      have hcore := congrArg List.length (core_recalculate q)
      rw [List.length_map, List.length_map, hnil] at hcore
      exact List.length_eq_zero_iff.1 hcore.symm
    refine ⟨h.busy, fun hnil => h.nonempty (hlen hnil), ?_, ?_, ?_,
      fun hnil => h.fresh (hlen hnil)⟩
    · intro hbusy b hb
      have hq := h.committed hbusy b hb
      have hqbusy : q.headBusy = true := h.busy.trans hbusy
      obtain ⟨rest, hrest⟩ := List.head?_eq_some_iff.1 hq
      show b ∈ q.recalculate.blocks.head?
      rw [blocks_recalculate, hrest, hqbusy]
      rfl
    · intro b hb b' hb'
      obtain ⟨c, hc, hcore, -⟩ := head_recalculate q hb'
      have hcap : (b'.withEntry 0).maxEntrySpeedSq = (c.withEntry 0).maxEntrySpeedSq :=
        congrArg Block.maxEntrySpeedSq hcore
      exact hcap.trans (h.cap b hb c hc)
    · intro hnil b hb
      obtain ⟨c, hc, hcore, hsame⟩ := head_recalculate q hb
      obtain ⟨hentry, hcap⟩ := h.first hnil c hc
      have hfields : b.maxEntrySpeedSq = c.maxEntrySpeedSq ∧ b.unitVec = c.unitVec
          ∧ b.acceleration = c.acceleration ∧ b.nominalSpeedSq = c.nominalSpeedSq := by
        simp only [Block.withEntry, Block.mk.injEq] at hcore
        tauto
      obtain ⟨hmax, hvec, hacc, hnom⟩ := hfields
      refine ⟨fun hbusy => ?_, ?_⟩
      · rw [hsame hbusy]
        exact hentry hbusy
      · rw [hmax, hvec, hacc, hnom]
        exact hcap
  | append settled q target feed units feedMode rapid jog block room fits built =>
    have hspec := buildBlock_spec built
    cases hblocks : q.blocks with
    | nil =>
      have hp : p.blocks = [] := h.nonempty hblocks
      have hhead : (q.append target block room).blocks = [block] := by
        rw [blocks_append, hblocks, List.nil_append]
      refine ⟨h.busy, fun _ => hp, ?_, ?_, ?_, ?_⟩
      · intro _ b hb
        rw [hp] at hb
        cases hb
      · intro b hb
        rw [hp] at hb
        cases hb
      · intro _ b hb
        rw [hhead] at hb
        obtain rfl : block = b := Option.some.inj hb
        refine ⟨fun _ => hspec.entrySpeedSq, ?_⟩
        rcases h.fresh hblocks with hzero | hsame
        · exact Or.inl (buildBlock_from_rest hzero built)
        · right
          rw [← hsame]
          exact hspec.maxEntrySpeedSq
      · intro hnil
        rw [hhead] at hnil
        cases hnil
    | cons c rest =>
      have hhead : (q.append target block room).blocks.head? = q.blocks.head? := by
        rw [blocks_append, hblocks]
        rfl
      have hne : (q.append target block room).blocks ≠ [] := by
        rw [blocks_append, hblocks]
        exact List.cons_ne_nil _ _
      refine ⟨h.busy, fun hnil => absurd hnil hne, ?_, ?_, ?_,
        fun hnil => absurd hnil hne⟩
      · rw [hhead]
        exact h.committed
      · rw [hhead]
        exact h.cap
      · rw [hhead]
        exact h.first

/-- What planning from `p` keeps for the oldest block, with the entry settled
when it should be at rest. -/
structure PlannedFrom (p : Planner K) (s : Bool × Planner K) : Prop where
  /-- The planner stays well formed. -/
  wellFormed : WellFormed s.2
  /-- The oldest block is kept. -/
  head : HeadKept p s.2
  /-- A block that may not be entered moving is not, once entries are settled. -/
  rest : s.1 = true → s.2.headBusy = false → ∀ b ∈ s.2.blocks.head?,
    b.maxEntrySpeedSq = 0 → b.entrySpeedSq = 0

theorem PlannedFrom.path [LawfulLibm K] {exact : Prop} {p : Planner K} {s t : Bool × Planner K}
    (hpath : PlanPath exact s t) (h : PlannedFrom p s) : PlannedFrom p t := by
  induction hpath with
  | refl => exact h
  | tail _ hstep ih =>
    refine ⟨?_, ih.head.step hstep, ?_⟩
    · cases hstep with
      | note settled q o ho => exact ih.wellFormed.congr rfl rfl rfl rfl
      | append settled q target feed units feedMode rapid jog block room fits built =>
        exact ih.wellFormed.append room built
      | recalculate settled q => exact ih.wellFormed.recalculate
      | flush settled q => exact ih.wellFormed.flushLookahead
      | arc settled q arc => exact ih.wellFormed.congr rfl rfl rfl rfl
    · cases hstep with
      | note settled q o ho => exact ih.rest
      | append settled q target feed units feedMode rapid jog block room fits built =>
        exact fun h => absurd h Bool.false_ne_true
      | recalculate settled q =>
        exact fun _ hbusy b hb hcap => entry_recalculate ih.wellFormed hbusy hb hcap
      | flush settled q => exact ih.rest
      | arc settled q arc => exact ih.rest

/-! ## Continuous speed -/

omit [IsStrictOrderedRing K] [Libm K] in
/-- Take the oldest block, with its exit speed: the entry of the block that is
then the oldest, or rest. -/
def takeBlock (p : Planner K) : Option (Block K × K × Planner K) :=
  p.popBlock.map fun (block, p) =>
    (block, (p.peekBlock.map Block.entrySpeedSq).getD 0, p)

end Planner

/-- The planner and what has been executed. -/
structure Machine (K : Type) [Field K] [LinearOrder K] where
  /-- The planner. -/
  planner : Planner K
  /-- The entry and exit speeds of the blocks taken, oldest first. -/
  executed : List (K × K)

namespace Machine

/-- A machine at rest. -/
def new (config : PlannerConfig K) : Machine K := ⟨.new config, []⟩

/-- The speed at which the last block was executed to its end; rest at first. -/
def lastExit (m : Machine K) : K :=
  (((0, 0) :: m.executed).getLast (List.cons_ne_nil _ _)).2

/-- Every block was entered at the speed the one before it was left at, and the
first from rest. -/
def Continuous (m : Machine K) : Prop :=
  ((0, 0) :: m.executed).IsChain fun a b => b.1 = a.2

variable [FloorRing K] [Libm K]

/-- An operation on the planner; a block that is taken is executed. -/
def step (m : Machine K) : PlannerOp K → Machine K
  | .popBlock =>
    match m.planner.takeBlock with
    | none => m
    | some (block, exitSpeedSq, planner) =>
      ⟨planner, m.executed ++ [(block.entrySpeedSq, exitSpeedSq)]⟩
  | op => { m with planner := m.planner.apply op }

/-- The operation plans no moving start and stops no committed block: a block
planned onto an empty queue meets a corner at rest, and a flush that takes the
oldest block finds it uncommitted or committed at rest. -/
def StartsFromRest (m : Machine K) (op : PlannerOp K) : Prop :=
  (op.plans = true → m.planner.blocks = [] →
      ∀ b ∈ (m.planner.apply op).blocks.head?,
        m.planner.junctionSpeedSq b.unitVec b.acceleration = ((0 : K) : WithTop K))
    ∧ (op = .flushJogBlocks ∨ op = .flushQueue →
      (m.planner.apply op).blocks = [] → m.planner.headBusy = true →
      ∀ b ∈ m.planner.blocks.head?, b.entrySpeedSq = 0)

/-! ### What a machine keeps -/

/-- The oldest block is planned to be entered at the speed of the last exit. -/
structure AtSpeed (m : Machine K) : Prop where
  /-- The planner is well formed. -/
  wellFormed : m.planner.WellFormed
  /-- Execution was continuous so far. -/
  continuous : Continuous m
  /-- A committed block is entered at the last exit. -/
  busy : m.planner.headBusy = true →
    ∀ b ∈ m.planner.blocks.head?, b.entrySpeedSq = m.lastExit
  /-- Without a commitment the machine is at rest, and so is the oldest block. -/
  idle : m.planner.headBusy = false → m.lastExit = 0
    ∧ ∀ b ∈ m.planner.blocks.head?, b.maxEntrySpeedSq = 0 ∧ b.entrySpeedSq = 0
  /-- A queue that has run dry leaves the machine at rest. -/
  emptied : m.planner.blocks = [] → m.lastExit = 0

omit [FloorRing K] [Libm K] in
theorem AtSpeed.entry {m : Machine K} (h : AtSpeed m) {b : Block K}
    (hb : b ∈ m.planner.blocks.head?) : b.entrySpeedSq = m.lastExit := by
  cases hbusy : m.planner.headBusy with
  | true => exact h.busy hbusy b hb
  | false => exact ((h.idle hbusy).2 b hb).2.trans (h.idle hbusy).1.symm

variable [IsStrictOrderedRing K]

omit [FloorRing K] [Libm K] in
theorem atSpeed_new (config : PlannerConfig K) : AtSpeed (new config) :=
  ⟨Planner.wellFormed_new config, List.isChain_singleton _, nofun,
    fun _ => ⟨rfl, nofun⟩, fun _ => rfl⟩

omit [FloorRing K] [Libm K] [IsStrictOrderedRing K] in
/-- Taking a block: it is entered at the last exit, and what is then the oldest
is committed to at the new one. -/
theorem AtSpeed.takeBlock {m : Machine K} (h : AtSpeed m) {block : Block K}
    {exitSpeedSq : K} {p : Planner K}
    (htake : m.planner.takeBlock = some (block, exitSpeedSq, p)) :
    AtSpeed ⟨p, m.executed ++ [(block.entrySpeedSq, exitSpeedSq)]⟩ := by
  obtain ⟨⟨b, p'⟩, hpop, heq⟩ := Option.map_eq_some_iff.1 htake
  obtain ⟨rfl, rest⟩ := Prod.mk.inj heq
  obtain ⟨hexit, rfl⟩ := Prod.mk.inj rest
  have hwf := h.wellFormed.popBlock hpop
  obtain ⟨queue, hblocks, hp⟩ := (Planner.popBlock_eq_some_iff _ _ _).1 hpop
  have hentry : b.entrySpeedSq = m.lastExit := h.entry (by rw [hblocks]; rfl)
  have hlast : lastExit (⟨p', m.executed ++ [(b.entrySpeedSq, exitSpeedSq)]⟩ : Machine K)
      = exitSpeedSq := by
    simp [lastExit]
  have hhead : ∀ c ∈ p'.blocks.head?, c.entrySpeedSq = exitSpeedSq := by
    intro c hc
    have hpeek : p'.peekBlock = some c := hc
    rw [← hexit, hpeek]
    rfl
  have hdry : p'.blocks = [] → exitSpeedSq = 0 := by
    intro hnil
    have hpeek : p'.peekBlock = none := by
      show p'.blocks.head? = none
      rw [hnil]
      rfl
    rw [← hexit, hpeek]
    rfl
  refine ⟨hwf, ?_, fun _ c hc => (hhead c hc).trans hlast.symm, fun hidle => ?_,
    fun hnil => hlast.trans (hdry hnil)⟩
  · unfold Continuous
    rw [← List.cons_append, List.isChain_append]
    refine ⟨h.continuous, List.isChain_singleton _, ?_⟩
    intro x hx y hy
    obtain rfl : (b.entrySpeedSq, exitSpeedSq) = y := by simpa using hy
    rw [List.getLast?_eq_some_getLast (List.cons_ne_nil _ _)] at hx
    obtain rfl := Option.some.inj hx
    exact hentry
  · have hempty : p'.blocks = [] := by
      rw [hp] at hidle ⊢
      have hrest : queue.isEmpty = true := by simpa using hidle
      exact (Deque.isEmpty_iff queue).1 hrest
    refine ⟨hlast.trans (hdry hempty), fun c hc => ?_⟩
    rw [hempty] at hc
    cases hc

omit [FloorRing K] [Libm K] in
/-- Cutting the end of the queue off, where the oldest block stays or the machine
is at rest. -/
theorem AtSpeed.cut {m : Machine K} (h : AtSpeed m)
    {queue : Deque (Block K) blockQueueLen} (hq : queue.toList <+: m.planner.blocks)
    (hrest : queue.toList = [] → m.planner.headBusy = true →
      ∀ b ∈ m.planner.blocks.head?, b.entrySpeedSq = 0) :
    AtSpeed { m with planner := { m.planner.flushLookahead with queue := queue } } := by
  have hhead : ∀ b ∈ queue.toList.head?, b ∈ m.planner.blocks.head? := by
    intro b hb
    obtain ⟨rest, hsplit⟩ := hq
    obtain ⟨tail, htail⟩ := List.head?_eq_some_iff.1 hb
    rw [← hsplit, htail]
    rfl
  refine ⟨h.wellFormed.cut hq, h.continuous, fun hbusy b hb => h.busy hbusy b (hhead b hb),
    fun hidle => ⟨(h.idle hidle).1, fun b hb => (h.idle hidle).2 b (hhead b hb)⟩, ?_⟩
  intro hnil
  show m.lastExit = 0
  cases hbusy : m.planner.headBusy with
  | false => exact (h.idle hbusy).1
  | true =>
    cases hblocks : m.planner.blocks with
    | nil => exact h.emptied hblocks
    | cons b rest =>
      have hb : b ∈ m.planner.blocks.head? := by
        rw [hblocks]
        rfl
      rw [← h.busy hbusy b hb]
      exact hrest hnil hbusy b hb

variable [LawfulLibm K]

/-- Planning keeps the oldest block at the speed of the last exit, where no
moving start is planned. -/
theorem AtSpeed.plan {m : Machine K} (h : AtSpeed m) {op : PlannerOp K}
    (hplans : op.plans = true) (hguard : m.StartsFromRest op) :
    AtSpeed { m with planner := m.planner.apply op } := by
  have hstart : m.planner.PlannedFrom (true, m.planner) :=
    ⟨h.wellFormed, .refl _, fun _ hidle b hb _ => ((h.idle hidle).2 b hb).2⟩
  obtain ⟨hwf, hhead, hrest⟩ :=
    hstart.path (Planner.apply_path m.planner hplans fun (h : False) => h.elim)
  -- A first block is capped at rest, by the guard or by the commitment.
  have hfirst : m.planner.blocks = [] →
      ∀ b ∈ (m.planner.apply op).blocks.head?, b.maxEntrySpeedSq = 0 := by
    intro hnil b hb
    rcases (hhead.first hnil b hb).2 with hzero | hcap
    · exact hzero
    · rw [hcap, hguard.1 hplans hnil b hb, capBy_coe]
      obtain ⟨tail, htail⟩ := List.head?_eq_some_iff.1 hb
      have hsound := hwf.sound b (by
        show b ∈ (m.planner.apply op).blocks
        rw [htail]
        exact List.mem_cons_self)
      exact min_eq_left hsound.nominal_nonneg
  refine ⟨hwf, h.continuous, fun hbusy b hb => ?_, fun hidle => ?_,
    fun hnil => h.emptied (hhead.nonempty hnil)⟩
  · show b.entrySpeedSq = m.lastExit
    have hwas : m.planner.headBusy = true := hhead.busy.symm.trans hbusy
    cases hblocks : m.planner.blocks with
    | nil =>
      rw [(hhead.first hblocks b hb).1 hbusy, hfirst hblocks b hb]
      exact (h.emptied hblocks).symm
    | cons c rest =>
      have hc : c ∈ m.planner.blocks.head? := by
        rw [hblocks]
        rfl
      obtain rfl : b = c := Option.mem_unique hb (hhead.committed hwas c hc)
      exact h.busy hwas b hc
  · have hwas : m.planner.headBusy = false := hhead.busy.symm.trans hidle
    refine ⟨(h.idle hwas).1, fun b hb => ?_⟩
    have hcap : b.maxEntrySpeedSq = 0 := by
      cases hblocks : m.planner.blocks with
      | nil => exact hfirst hblocks b hb
      | cons c rest =>
        have hc : c ∈ m.planner.blocks.head? := by
          rw [hblocks]
          rfl
        exact (hhead.cap c hc b hb).trans ((h.idle hwas).2 c hc).1
    exact ⟨hcap, hrest rfl hidle b hb hcap⟩

/-- Every operation keeps the machine at speed, under the guard. -/
theorem AtSpeed.step {m : Machine K} (op : PlannerOp K) (h : AtSpeed m)
    (hguard : m.StartsFromRest op) : AtSpeed (m.step op) := by
  cases hplans : op.plans with
  | true =>
    cases op with
    | popBlock => cases hplans
    | _ => exact h.plan hplans hguard
  | false =>
    cases op with
    | plan | jog | goToPredefined | resumeArc | abortArc => cases hplans
    | popBlock =>
      cases htake : m.planner.takeBlock with
      | none => simpa [Machine.step, htake] using h
      | some taken =>
        obtain ⟨block, exitSpeedSq, p⟩ := taken
        simpa [Machine.step, htake] using h.takeBlock htake
    | flushJogBlocks =>
      exact h.cut (List.rdropWhile_prefix _ _) (hguard.2 (Or.inl rfl))
    | flushQueue => exact h.cut List.nil_prefix (hguard.2 (Or.inr rfl))
    | syncPosition steps =>
      exact ⟨h.wellFormed.flushLookahead.congr rfl rfl rfl rfl, h.2, h.3, h.4, h.5⟩
    | setConfig config =>
      exact ⟨h.wellFormed.flushLookahead.congr rfl rfl rfl rfl, h.2, h.3, h.4, h.5⟩
    | setWorkOffset wco =>
      exact ⟨h.wellFormed.congr rfl rfl rfl rfl, h.2, h.3, h.4, h.5⟩

/-- **Execution is continuous in every run** that plans no moving start and
stops no committed block. -/
theorem run_continuous (config : PlannerConfig K) (ops : List (PlannerOp K))
    (h : Runs.Allowed step StartsFromRest (new config) ops) :
    Continuous (ops.foldl step (new config)) :=
  (h.invariant (fun _ op hm hop => AtSpeed.step op hm hop) (atSpeed_new config)).continuous

theorem run_continuous_bench :
    Runs.Allowed step StartsFromRest (new (benchConfig (K := ℝ)))
        [.plan (.moveX false 10 600) none, .popBlock]
      ∧ Continuous (([.plan (.moveX false 10 600) none, .popBlock] :
        List (PlannerOp ℝ)).foldl step (new benchConfig)) := by
  have hallowed : Runs.Allowed step StartsFromRest (new (benchConfig (K := ℝ)))
      [.plan (.moveX false 10 600) none, .popBlock] := by
    refine ⟨⟨fun _ _ b _ => ?_, by simp⟩, ⟨nofun, by simp⟩, trivial⟩
    unfold Planner.junctionSpeedSq
    exact if_pos Planner.isZeroVec_zero
  exact ⟨hallowed, run_continuous benchConfig _ hallowed⟩

/-- Two moves in one direction, the second planned when the first has been
executed to rest. -/
def drainedRun : List (PlannerOp ℚ) :=
  [.plan (.moveX false 10 600) none, .popBlock, .plan (.moveX false 20 600) none,
    .popBlock]

/-- **A move planned after the queue has run dry starts moving.** It corners with
a block that has already been executed to rest, and is entered at 10 mm/s. -/
theorem planned_after_drain_discontinuous :
    ¬Continuous (drainedRun.foldl step (new benchConfig)) := by
  have hexecuted : (drainedRun.foldl step (new benchConfig)).executed
      = [(0, 0), (100, 0)] := by decide +kernel
  unfold Continuous
  rw [hexecuted]
  simp

end Machine

end Galdr
