import Galdr.MotionSteps
import Galdr.Simulator

/-!
# The account of a simulation

A command of the simulator is charged a range of the blocks that were taken, by their
numbers. The numbers are right as long as the count of the blocks and the queue of the
planner do not drift apart. This module keeps the account of the two: who owns each
queued block, and at which speed each block that was taken is left. Every block that
comes into the queue is charged once, to the command it was planned for, with the entry
of the block behind it in the queue when it was taken (`simulate_accounts`).
-/

namespace Galdr

variable {K : Type}

/-! ## Ranges of blocks -/

/-- The step is a motion. -/
def SimStep.isMotion : SimStep K → Bool
  | .move _ _ => true
  | _ => false

/-- The ranges of the commands, one after the other, cover the blocks, and each block is
owned by the command whose range it is in. -/
inductive Tiles : List (Slot K) → List (Option ℕ) → Prop
  /-- No command. -/
  | nil : Tiles [] []
  /-- A command without blocks. -/
  | done {slots : List (Slot K)} {owned : List (Option ℕ)} (step : SimStep K)
      (hstep : step.isMotion = false) (h : Tiles slots owned) :
    Tiles (slots ++ [.done step]) owned
  /-- A motion. -/
  | move {slots : List (Slot K)} {owned : List (Option ℕ)} (blocks : ℕ)
      (h : Tiles slots owned) :
    Tiles (slots ++ [.move owned.length (owned.length + blocks)])
      (owned ++ List.replicate blocks (some slots.length))

/-- The blocks of one command: a range of them when it is a motion. -/
def Owns (owned : List (Option ℕ)) (i : ℕ) : Slot K → Prop
  | .done step => step.isMotion = false ∧ some i ∉ owned
  | .move start stop =>
    ∃ before after blocks, owned = before ++ List.replicate blocks (some i) ++ after
      ∧ before.length = start ∧ start + blocks = stop ∧ some i ∉ before ∧ some i ∉ after

/-- Blocks of other commands change nothing. -/
theorem Owns.append {owned : List (Option ℕ)} {i : ℕ} {slot : Slot K}
    (h : Owns owned i slot) {more : List (Option ℕ)} (hmore : some i ∉ more) :
    Owns (owned ++ more) i slot := by
  cases slot with
  | done step =>
    exact ⟨h.1, fun hmem => (List.mem_append.1 hmem).elim h.2 hmore⟩
  | move start stop =>
    obtain ⟨before, after, blocks, hall, hstart, hstop, hbefore, hafter⟩ := h
    refine ⟨before, after ++ more, blocks, ?_, hstart, hstop, hbefore, ?_⟩
    · rw [hall, List.append_assoc]
    · exact fun hmem => (List.mem_append.1 hmem).elim hafter hmore

/-- Every block is owned by a command of the list. -/
theorem Tiles.owner_lt {slots : List (Slot K)} {owned : List (Option ℕ)}
    (h : Tiles slots owned) : ∀ o ∈ owned, ∃ i, i < slots.length ∧ o = some i := by
  induction h with
  | nil => exact fun o ho => absurd ho List.not_mem_nil
  | done step hstep h ih =>
    intro o ho
    obtain ⟨i, hi, rfl⟩ := ih o ho
    exact ⟨i, by simp only [List.length_append]; omega, rfl⟩
  | move blocks h ih =>
    intro o ho
    rcases List.mem_append.1 ho with ho | ho
    · obtain ⟨i, hi, rfl⟩ := ih o ho
      exact ⟨i, by simp only [List.length_append]; omega, rfl⟩
    · exact ⟨_, by simp, List.eq_of_mem_replicate ho⟩

theorem Tiles.not_mem {slots : List (Slot K)} {owned : List (Option ℕ)}
    (h : Tiles slots owned) {i : ℕ} (hi : slots.length ≤ i) : some i ∉ owned := by
  intro hmem
  obtain ⟨j, hj, heq⟩ := h.owner_lt _ hmem
  have hij : i = j := Option.some.inj heq
  omega

/-- **Each command owns its range**, and nothing outside it. -/
theorem Tiles.owns {slots : List (Slot K)} {owned : List (Option ℕ)}
    (h : Tiles slots owned) {i : ℕ} {slot : Slot K} (hslot : slots[i]? = some slot) :
    Owns owned i slot := by
  induction h generalizing i slot with
  | nil => cases hslot
  | @done slots owned step hstep h ih =>
    rcases Nat.lt_trichotomy i slots.length with hlt | rfl | hgt
    · rw [List.getElem?_append_left hlt] at hslot
      exact ih hslot
    · rw [List.getElem?_append_right le_rfl, Nat.sub_self] at hslot
      obtain rfl := Option.some.inj hslot
      exact ⟨hstep, h.not_mem le_rfl⟩
    · rw [List.getElem?_eq_none (by simp only [List.length_append, List.length_singleton]; omega)]
        at hslot
      cases hslot
  | @move slots owned blocks h ih =>
    rcases Nat.lt_trichotomy i slots.length with hlt | rfl | hgt
    · rw [List.getElem?_append_left hlt] at hslot
      refine (ih hslot).append fun hmem => ?_
      have heq : i = slots.length := Option.some.inj (List.eq_of_mem_replicate hmem)
      omega
    · rw [List.getElem?_append_right le_rfl, Nat.sub_self] at hslot
      obtain rfl := Option.some.inj hslot
      exact ⟨owned, [], blocks, (List.append_nil _).symm, rfl, rfl, h.not_mem le_rfl,
        List.not_mem_nil⟩
    · rw [List.getElem?_eq_none (by simp only [List.length_append, List.length_singleton]; omega)]
        at hslot
      cases hslot

/-! ## The speeds that blocks are left at -/

variable [Field K]

/-- Each block that was taken is left at the entry of the one behind it, in the order of
the queue. -/
def Linked (taken : List (Taken K)) (queue : List (Block K)) : Prop :=
  ∀ before e after, taken = before ++ e :: after →
    e.exitSq = Planner.nextEntrySq (after.map Taken.block ++ queue)

theorem Linked.pop {taken : List (Taken K)} {block : Block K} {rest : List (Block K)}
    (h : Linked taken (block :: rest)) (owner : Option ℕ) :
    Linked (taken ++ [⟨owner, block, Planner.nextEntrySq rest⟩]) rest := by
  intro before e after heq
  rcases List.eq_nil_or_concat' after with rfl | ⟨init, last, rfl⟩
  · have hlast := (List.append_inj' heq rfl).2
    obtain rfl := (List.cons.inj hlast).1
    rfl
  · have hsplit : taken ++ [⟨owner, block, Planner.nextEntrySq rest⟩]
        = (before ++ e :: init) ++ [last] := by
      rw [heq, List.append_assoc]
      rfl
    obtain ⟨htaken, hlast⟩ := List.append_inj' hsplit rfl
    obtain rfl := (List.cons.inj hlast).1
    rw [h before e init htaken, List.map_append, List.append_assoc]
    rfl

/-- The speeds do not change with the queue, as long as its first entry does not. -/
theorem Linked.queue {taken : List (Taken K)} {queue queue' : List (Block K)}
    (h : Linked taken queue)
    (hentry : taken ≠ [] → Planner.nextEntrySq queue' = Planner.nextEntrySq queue) :
    Linked taken queue' := by
  intro before e after heq
  rw [h before e after heq]
  cases after with
  | nil => exact (hentry (by rw [heq]; exact List.append_ne_nil_of_right_ne_nil _ nofun)).symm
  | cons next after => rfl

/-! ## The account -/

namespace Sim

variable [LinearOrder K]

/-- The commands of all blocks that came into the queue, in their order. -/
def owned (s : Sim K) : List (Option ℕ) :=
  s.taken.map Taken.owner ++ s.owners.map some

/-- The account of a state: the blocks that were taken are the ones it knows, each queued
block has an owner, and each block taken is left at the entry of the next. -/
structure Accounted (s : Sim K) : Prop where
  /-- What was taken. -/
  blocks : s.blocks = s.taken.map Taken.block
  /-- One owner for each queued block. -/
  owners : s.owners.length = s.planner.blocks.length
  /-- The speeds. -/
  linked : Linked s.taken s.planner.blocks

/-- Once a block was taken, there is one in the queue whose entry is committed. -/
def Committed (s : Sim K) : Prop :=
  s.taken ≠ [] → s.planner.blocks ≠ [] ∧ s.planner.headBusy = true

/-- The state is that of `s` but for blocks that came into the queue for a command. -/
structure Grown (s t : Sim K) (i blocks : ℕ) : Prop where
  /-- The commands so far. -/
  slots : t.slots = s.slots
  /-- The blocks are owned by the command. -/
  owned : t.owned = s.owned ++ List.replicate blocks (some i)

theorem Grown.refl (s : Sim K) (i : ℕ) : Grown s s i 0 :=
  ⟨rfl, (List.append_nil _).symm⟩

theorem Grown.trans {s t u : Sim K} {i m n : ℕ} (h : Grown s t i m) (h' : Grown t u i n) :
    Grown s u i (m + n) where
  slots := h'.slots.trans h.slots
  owned := by rw [h'.owned, h.owned, List.append_assoc, List.replicate_append_replicate]

/-- A pop keeps the account. -/
theorem Accounted.pop {s t : Sim K} (h : Accounted s) (hpop : s.pop = some t) (i : ℕ) :
    Accounted t ∧ Grown s t i 0 ∧ t.enqueuedTotal = s.enqueuedTotal := by
  obtain ⟨block, planner, hplanner, rfl⟩ := pop_eq_some hpop
  obtain ⟨rest, hblocks, rfl⟩ := (Planner.popBlock_eq_some_iff _ _ _).1 hplanner
  obtain ⟨owner, owners, howners⟩ : ∃ owner owners, s.owners = owner :: owners := by
    apply List.exists_cons_of_length_pos
    rw [h.owners, hblocks]
    exact Nat.succ_pos _
  refine ⟨⟨?_, ?_, ?_⟩, ⟨rfl, ?_⟩, rfl⟩
  · show s.blocks ++ [block] = List.map Taken.block (s.taken ++ [_])
    rw [List.map_append, h.blocks]
    rfl
  · show s.owners.tail.length = rest.toList.length
    rw [List.length_tail, h.owners, hblocks]
    rfl
  · have hlinked := h.linked
    rw [hblocks] at hlinked
    exact hlinked.pop _
  · show (s.taken ++ [_]).map Taken.owner ++ s.owners.tail.map some = s.owned ++ []
    unfold owned
    rw [howners, List.map_append, List.append_assoc, List.append_nil]
    rfl

/-- A pop from a full queue leaves a committed block. -/
theorem committed_pop {s t : Sim K} (hpop : s.pop = some t)
    (hfull : blockQueueLen ≤ s.planner.blocks.length) : Committed t := by
  have hlength := length_pop hpop
  obtain ⟨block, planner, hplanner, rfl⟩ := pop_eq_some hpop
  obtain ⟨rest, hblocks, rfl⟩ := (Planner.popBlock_eq_some_iff _ _ _).1 hplanner
  have hlong : 32 ≤ s.planner.blocks.length := hfull
  have hne : rest.toList ≠ [] := by
    rw [← List.length_pos_iff]
    have hrest : rest.toList.length + 1 = s.planner.blocks.length := hlength
    omega
  refine fun _ => ⟨hne, ?_⟩
  show (!rest.isEmpty) = true
  rw [Bool.not_eq_true', ← Bool.not_eq_true, Deque.isEmpty_iff]
  exact hne

variable [IsStrictOrderedRing K] [Libm K] [FloorRing K]

omit [FloorRing K] in
/-- Planning keeps a committed block. -/
theorem headKept_path {exact : Prop} {s t : Bool × Planner K}
    (hpath : Planner.PlanPath exact s t) : Planner.HeadKept s.2 t.2 := by
  induction hpath with
  | refl => exact .refl _
  | tail _ hstep ih => exact ih.step hstep

omit [FloorRing K] [Libm K] [IsStrictOrderedRing K] in
/-- A call that keeps a committed block keeps the account. -/
theorem Accounted.called [Libm K] {s : Sim K} (h : Accounted s) (hbusy : Committed s) (i : ℕ)
    {q : Planner K} {result : Except PlannerError (PlannerOutcome K)}
    (hcall : Planner.Call s.planner q result) (hkept : Planner.HeadKept s.planner q) :
    Accounted (s.called i q) ∧ Committed (s.called i q)
      ∧ Grown s (s.called i q) i (enqueuedCount result) := by
  have hcount : q.queuedLen - s.planner.queuedLen = enqueuedCount result := by
    have hlength := hcall.length
    show q.blocks.length - s.planner.blocks.length = _
    omega
  have hentry : s.taken ≠ [] →
      Planner.nextEntrySq q.blocks = Planner.nextEntrySq s.planner.blocks := by
    intro htaken
    obtain ⟨hne, hhead⟩ := hbusy htaken
    obtain ⟨b, rest, hblocks⟩ := List.exists_cons_of_ne_nil hne
    have hq := hkept.committed hhead b (by rw [hblocks]; rfl)
    obtain ⟨rest', hblocks'⟩ := List.head?_eq_some_iff.1 hq
    rw [hblocks, hblocks']
    rfl
  refine ⟨⟨h.blocks, ?_, h.linked.queue hentry⟩, fun htaken => ?_, ⟨rfl, ?_⟩⟩
  · show (s.owners ++ List.replicate _ i).length = q.blocks.length
    rw [List.length_append, List.length_replicate, h.owners, hcount, hcall.length]
  · obtain ⟨hne, hhead⟩ := hbusy htaken
    exact ⟨fun hnil => hne (hkept.nonempty hnil), hkept.busy.trans hhead⟩
  · show s.taken.map Taken.owner ++ (s.owners ++ List.replicate _ i).map some = _
    unfold owned
    rw [hcount, List.map_append, List.map_replicate, List.append_assoc]

omit [IsStrictOrderedRing K] in
theorem planRetrying_of_room {s : Sim K} {i : ℕ} {command : PlannerCommand K}
    (hroom : ¬isFull (s.planner.planCommand command).1 = true) :
    s.planRetrying i command = ((s.planner.planCommand command).1,
      s.called i (s.planner.planCommand command).2) := by
  rw [planRetrying, if_neg hroom]

omit [IsStrictOrderedRing K] in
theorem planRetrying_of_pop {s t : Sim K} {i : ℕ} {command : PlannerCommand K}
    (hfull : isFull (s.planner.planCommand command).1 = true)
    (hpop : (s.called i (s.planner.planCommand command).2).pop = some t) :
    s.planRetrying i command = t.planRetrying i command := by
  rw [planRetrying, if_pos hfull]
  split
  · rename_i hnone
    rw [hpop] at hnone
    cases hnone
  · rename_i u hsome
    rw [hpop] at hsome
    rw [Option.some.inj hsome]

theorem headKept_planCommand (p : Planner K) (command : PlannerCommand K) :
    Planner.HeadKept p (p.planCommand command).2 :=
  headKept_path (Planner.planCommandWithLimits_path p command none fun h : False => h.elim)

theorem headKept_resumeArc (p : Planner K) : Planner.HeadKept p p.resumeArc.2 :=
  have hpath : Planner.PlanPath False (true, p) (true, p.apply .resumeArc) :=
    Planner.apply_path p rfl fun h : False => h.elim
  headKept_path hpath

/-- Planning a command keeps the account: the blocks that came into the queue are the ones
the outcome reports, and part of an arc is left behind only in a full queue. -/
theorem planRetrying_spec {s : Sim K} (h : Accounted s) (hbusy : Committed s)
    (harc : s.planner.arcInProgress = none) (i : ℕ) (command : PlannerCommand K) :
    Accounted (s.planRetrying i command).2 ∧ Committed (s.planRetrying i command).2
      ∧ Grown s (s.planRetrying i command).2 i (enqueuedCount (s.planRetrying i command).1)
      ∧ (s.planRetrying i command).2.enqueuedTotal = s.enqueuedTotal
      ∧ (s.planRetrying i command).2.planner.arcInProgress.isSome
        = isPending (s.planRetrying i command).1
      ∧ (isPending (s.planRetrying i command).1 = true →
        blockQueueLen ≤ (s.planRetrying i command).2.planner.blocks.length) := by
  induction s using planRetrying.induct i command with
  | case1 s called hfull hnone =>
    -- A queue without room has a block to take.
    have hlong : 32 ≤ called.planner.blocks.length :=
      (s.planner.planCommand_call command).full (Or.inr hfull)
    rw [pop_eq_none hnone] at hlong
    exact absurd (show 32 ≤ 0 from hlong) (by decide)
  | case2 s called hfull t hpop ih =>
    have hcall := s.planner.planCommand_call command
    obtain ⟨hcount, hquiet⟩ := quiet_of_isFull hfull
    obtain ⟨hacc, _, hgrown⟩ := h.called hbusy i hcall (headKept_planCommand _ command)
    obtain ⟨hacc', hgrown', htotal⟩ := hacc.pop hpop i
    have harc' : t.planner.arcInProgress = none := by
      have hkept := arc_popSome called
      unfold popSome at hkept
      rw [hpop] at hkept
      have hpending := hcall.pending harc
      rw [hquiet, Option.isSome_eq_false_iff, Option.isNone_iff_eq_none] at hpending
      exact hkept.trans hpending
    obtain ⟨h1, h2, h3, h4, h5⟩ :=
      ih hacc' (committed_pop hpop (hcall.full (Or.inr hfull))) harc'
    rw [planRetrying_of_pop hfull hpop]
    refine ⟨h1, h2, ?_, h4.trans htotal, h5⟩
    have hboth := (hgrown.trans hgrown').trans h3
    rwa [hcount, Nat.add_zero, Nat.zero_add] at hboth
  | case3 s hroom =>
    have hcall := s.planner.planCommand_call command
    obtain ⟨hacc, hbusy', hgrown⟩ := h.called hbusy i hcall (headKept_planCommand _ command)
    rw [planRetrying_of_room hroom]
    exact ⟨hacc, hbusy', hgrown, rfl, hcall.pending harc, fun hp => hcall.full (Or.inl hp)⟩

omit [IsStrictOrderedRing K] [Libm K] [FloorRing K] in
/-- A block taken from a full queue keeps the account. -/
theorem popSome_spec {s : Sim K} (h : Accounted s)
    (hfull : blockQueueLen ≤ s.planner.blocks.length) (i : ℕ) :
    Accounted s.popSome ∧ Committed s.popSome ∧ Grown s s.popSome i 0
      ∧ s.popSome.enqueuedTotal = s.enqueuedTotal := by
  unfold popSome
  cases hpop : s.pop with
  | none =>
    rw [pop_eq_none hpop] at hfull
    exact absurd (show 32 ≤ 0 from hfull) (by decide)
  | some t =>
    obtain ⟨hacc, hgrown, htotal⟩ := h.pop hpop i
    exact ⟨hacc, committed_pop hpop hfull, hgrown, htotal⟩

/-- One chunk of an arc keeps the account. -/
theorem chunk_spec {s : Sim K} (h : Accounted s)
    (hfull : blockQueueLen ≤ s.planner.blocks.length) (i : ℕ)
    {result : Except PlannerError (PlannerOutcome K)}
    (hresult : s.popSome.planner.resumeArc.1 = result) :
    let t := s.popSome.called i s.popSome.planner.resumeArc.2
    Accounted t ∧ Committed t ∧ Grown s t i (enqueuedCount result)
      ∧ t.enqueuedTotal = s.enqueuedTotal
      ∧ t.planner.arcInProgress.isSome = isPending result
      ∧ (isPending result = true → blockQueueLen ≤ t.planner.blocks.length) := by
  obtain ⟨hacc, hbusy, hgrown, htotal⟩ := popSome_spec h hfull i
  obtain ⟨hcall, harc, _⟩ := Planner.resumeArc_call s.popSome.planner
  obtain ⟨hacc', hbusy', hgrown'⟩ := hacc.called hbusy i hcall (headKept_resumeArc _)
  have hboth := hgrown.trans hgrown'
  rw [Nat.zero_add] at hboth
  rw [hresult] at hboth hcall harc
  exact ⟨hacc', hbusy', hboth, htotal, harc, fun hp => hcall.full (Or.inl hp)⟩

omit [IsStrictOrderedRing K] [Libm K] [FloorRing K] in
/-- Counting blocks changes nothing else. -/
theorem Grown.count {s t : Sim K} {i blocks : ℕ} (h : Grown s t i blocks) (n : ℕ) :
    Grown s (t.count n) i blocks := ⟨h.slots, h.owned⟩

/-- Feeding an arc to its end keeps the account. -/
theorem drainArc_spec {s : Sim K} (h : Accounted s) (hbusy : Committed s)
    (hfull : s.planner.arcInProgress.isSome = true →
      blockQueueLen ≤ s.planner.blocks.length) (i : ℕ) :
    Accounted (s.drainArc i) ∧ Committed (s.drainArc i)
      ∧ (s.drainArc i).planner.arcInProgress = none
      ∧ ∃ blocks, Grown s (s.drainArc i) i blocks
        ∧ (s.drainArc i).enqueuedTotal = s.enqueuedTotal + blocks := by
  induction hn : s.planner.arcRemaining using Nat.strong_induction_on generalizing s with
  | _ n ih =>
  rw [drainArc]
  split
  · rename_i harc
    split
    · -- The rest of the arc is in the queue.
      rename_i blocks hresult
      obtain ⟨h1, h2, h3, h4, h5, _⟩ := chunk_spec h (hfull harc) i hresult
      refine ⟨⟨h1.blocks, h1.owners, h1.linked⟩, h2, ?_, blocks, h3.count blocks, ?_⟩
      · exact Option.isNone_iff_eq_none.1 (Option.isSome_eq_false_iff.1 h5)
      · exact congrArg (· + blocks) h4
    · rename_i blocks hresult
      obtain ⟨h1, h2, h3, h4, h5, h6⟩ := chunk_spec h (hfull harc) i hresult
      have hless := (Planner.resumeArc_call s.popSome.planner).2.2 s.room_popSome
        (by rw [hresult]; rfl)
      have hsame : s.popSome.planner.arcRemaining = s.planner.arcRemaining := by
        unfold Planner.arcRemaining
        rw [s.arc_popSome]
      rw [hsame, hn] at hless
      obtain ⟨g1, g2, g3, more, g4, g5⟩ := ih _ hless
        (s := (s.popSome.called i s.popSome.planner.resumeArc.2).count blocks)
        ⟨h1.blocks, h1.owners, h1.linked⟩ h2 (fun _ => h6 rfl) rfl
      refine ⟨g1, g2, g3, blocks + more, (h3.count blocks).trans g4, ?_⟩
      rw [g5, ← Nat.add_assoc]
      exact congrArg (· + blocks + more) h4
    · -- Nothing else comes of it, and nothing would be lost.
      rename_i hqueued hpending
      obtain ⟨h1, h2, h3, h4, h5, _⟩ := chunk_spec h (hfull harc) i rfl
      have hquiet : enqueuedCount s.popSome.planner.resumeArc.1 = 0
          ∧ isPending s.popSome.planner.resumeArc.1 = false := by
        revert hqueued hpending
        rcases s.popSome.planner.resumeArc.1 with e | outcome
        · exact fun _ _ => ⟨rfl, rfl⟩
        · cases outcome with
          | queued n => exact fun hqueued _ => absurd rfl (hqueued n)
          | arcPending n => exact fun _ hpending => absurd rfl (hpending n)
          | _ => exact fun _ _ => ⟨rfl, rfl⟩
      rw [hquiet.1] at h3
      rw [hquiet.2] at h5
      exact ⟨h1, h2, Option.isNone_iff_eq_none.1 (Option.isSome_eq_false_iff.1 h5), 0, h3, h4⟩
  · rename_i harc
    exact ⟨h, hbusy, Option.not_isSome_iff_eq_none.1 harc, 0, .refl s i, rfl⟩

/-- Between two commands: the account holds, and the ranges of the commands so far cover
the blocks that came into the queue. -/
structure Settled (s : Sim K) (i : ℕ) : Prop where
  /-- The account. -/
  accounted : Accounted s
  /-- A queue that was taken from is not empty. -/
  committed : Committed s
  /-- No arc is left behind. -/
  arc : s.planner.arcInProgress = none
  /-- The ranges. -/
  tiles : Tiles s.slots s.owned
  /-- The count of the blocks. -/
  total : s.enqueuedTotal = s.owned.length
  /-- The count of the commands. -/
  slots : s.slots.length = i

omit [IsStrictOrderedRing K] [Libm K] [FloorRing K] in
theorem settled_new (config : PlannerConfig K) : Settled (new config) 0 where
  accounted := ⟨rfl, rfl, fun before e after h => by
    have hmem : e ∈ ([] : List (Taken K)) := by
      rw [show ([] : List (Taken K)) = _ from h]
      exact List.mem_append_right _ List.mem_cons_self
    exact absurd hmem List.not_mem_nil⟩
  committed := fun h => absurd rfl h
  arc := rfl
  tiles := .nil
  total := rfl
  slots := rfl

omit [IsStrictOrderedRing K] [Libm K] [FloorRing K] in
/-- A motion is charged the blocks that came into the queue for it. -/
theorem Settled.move {s t : Sim K} {i blocks : ℕ} (h : Settled s i) (hacc : Accounted t)
    (hbusy : Committed t) (harc : t.planner.arcInProgress = none)
    (hgrown : Grown s t i blocks) (htotal : t.enqueuedTotal = s.enqueuedTotal + blocks) :
    Settled (t.slot (.move s.enqueuedTotal t.enqueuedTotal)) (i + 1) where
  accounted := ⟨hacc.blocks, hacc.owners, hacc.linked⟩
  committed := hbusy
  arc := harc
  tiles := by
    show Tiles (t.slots ++ [_]) t.owned
    rw [hgrown.slots, hgrown.owned, htotal, h.total, ← h.slots]
    exact .move blocks h.tiles
  total := by
    show t.enqueuedTotal = t.owned.length
    rw [htotal, hgrown.owned, List.length_append, List.length_replicate, h.total]
  slots := by
    show (t.slots ++ [_]).length = _
    rw [List.length_append, hgrown.slots, h.slots]
    rfl

omit [IsStrictOrderedRing K] [Libm K] [FloorRing K] in
/-- A command that brought no blocks is charged none. -/
theorem Settled.done {s t : Sim K} {i : ℕ} (h : Settled s i) (hacc : Accounted t)
    (hbusy : Committed t) (harc : t.planner.arcInProgress = none) (hgrown : Grown s t i 0)
    (htotal : t.enqueuedTotal = s.enqueuedTotal) {step : SimStep K}
    (hstep : step.isMotion = false) : Settled (t.slot (.done step)) (i + 1) where
  accounted := ⟨hacc.blocks, hacc.owners, hacc.linked⟩
  committed := hbusy
  arc := harc
  tiles := by
    show Tiles (t.slots ++ [_]) t.owned
    rw [hgrown.slots, hgrown.owned, List.replicate_zero, List.append_nil]
    exact .done step hstep h.tiles
  total := by
    show t.enqueuedTotal = t.owned.length
    rw [htotal, hgrown.owned, List.replicate_zero, List.append_nil, h.total]
  slots := by
    show (t.slots ++ [_]).length = _
    rw [List.length_append, hgrown.slots, h.slots]
    rfl

/-- **One command.** -/
theorem Settled.simulateCommand {s : Sim K} {i : ℕ} (h : Settled s i)
    (command : PlannerCommand K) : Settled (s.simulateCommand i command) (i + 1) := by
  obtain ⟨hacc, hbusy, hgrown, htotal, harc, hfull⟩ :=
    planRetrying_spec h.accounted h.committed h.arc i command
  unfold Sim.simulateCommand
  rcases hplan : s.planRetrying i command with ⟨result, t⟩
  rw [hplan] at hacc hbusy hgrown htotal harc hfull
  have hnone : isPending result = false → t.planner.arcInProgress = none := by
    intro hpending
    have hsome := harc.trans hpending
    exact Option.isNone_iff_eq_none.1 (Option.isSome_eq_false_iff.1 hsome)
  rcases result with e | outcome
  · exact h.done hacc hbusy (hnone rfl) hgrown htotal rfl
  · cases outcome with
    | queued blocks =>
      dsimp only at htotal ⊢
      rw [htotal]
      have hcount : (t.count blocks).enqueuedTotal = s.enqueuedTotal + blocks :=
        congrArg (· + blocks) htotal
      have hmove := h.move (t := t.count blocks)
        ⟨hacc.blocks, hacc.owners, hacc.linked⟩ hbusy (hnone rfl) (hgrown.count blocks) hcount
      rwa [hcount] at hmove
    | arcPending blocks =>
      obtain ⟨g1, g2, g3, more, g4, g5⟩ := drainArc_spec (s := t.count blocks)
        ⟨hacc.blocks, hacc.owners, hacc.linked⟩ hbusy (fun _ => hfull rfl) i
      dsimp only at htotal ⊢
      rw [htotal]
      refine h.move g1 g2 g3 ((hgrown.count blocks).trans g4) ?_
      rw [g5, ← Nat.add_assoc]
      exact congrArg (· + blocks + more) htotal
    | _ => exact h.done hacc hbusy (hnone rfl) hgrown htotal rfl

/-- **A whole program.** -/
theorem Settled.simulateCommands {s : Sim K} {i : ℕ} (h : Settled s i)
    (commands : List (PlannerCommand K)) :
    Settled (Sim.simulateCommands i commands s) (i + commands.length) := by
  induction commands generalizing s i with
  | nil => exact h
  | cons command rest ih =>
    have hrest := ih (h.simulateCommand command)
    rw [Nat.add_right_comm] at hrest
    exact hrest

omit [IsStrictOrderedRing K] [Libm K] [FloorRing K] in
/-- What is left in the queue is taken with the account. -/
theorem Accounted.drainQueue {s : Sim K} (h : Accounted s) :
    Accounted s.drainQueue ∧ Grown s s.drainQueue 0 0 ∧ s.drainQueue.planner.blocks = [] := by
  induction hn : s.planner.blocks.length generalizing s with
  | zero =>
    have hnil : s.planner.blocks = [] := List.length_eq_zero_iff.1 hn
    rw [Sim.drainQueue]
    split
    · exact ⟨h, .refl s 0, hnil⟩
    · rename_i t hpop
      have hlength := length_pop hpop
      omega
  | succ n ih =>
    rw [Sim.drainQueue]
    split
    · rename_i hpop
      exact ⟨h, .refl s 0, pop_eq_none hpop⟩
    · rename_i t hpop
      have hlength := length_pop hpop
      obtain ⟨hacc, hgrown, _⟩ := h.pop hpop 0
      obtain ⟨g1, g2, g3⟩ := ih hacc (by omega)
      exact ⟨g1, hgrown.trans g2, g3⟩

end Sim

/-! ## The times -/

section Times

variable [LinearOrder K] [FloorRing K] [Libm K]

/-- The time of a block that was taken. -/
def Taken.seconds (config : MotionConfig K) (e : Taken K) : K :=
  estimateBlockTime e.block e.exitSq config

/-- The blocks that were taken for a command. -/
def Sim.blocksOf (s : Sim K) (i : ℕ) : List (Taken K) :=
  s.taken.filter fun e => e.owner = some i

/-- What a command is charged is the time of its blocks. -/
def SimStep.Charges (config : MotionConfig K) (blocks : List (Taken K)) : SimStep K → Prop
  | .move seconds _ => seconds = (blocks.map (Taken.seconds config)).sum
  | _ => blocks = []

/-- The time of a block by its number. -/
theorem blockSeconds_taken {taken : List (Taken K)} (h : Linked taken [])
    {before after : List (Taken K)} {e : Taken K} (htaken : taken = before ++ e :: after)
    (config : MotionConfig K) :
    blockSeconds (taken.map Taken.block) config before.length
      = some (e.seconds config) := by
  have hblock : (taken.map Taken.block)[before.length]? = some e.block := by
    rw [htaken, List.getElem?_map, List.getElem?_append_right le_rfl, Nat.sub_self]
    rfl
  have hexit : (((taken.map Taken.block)[before.length + 1]?).map Block.entrySpeedSq).getD 0
      = e.exitSq := by
    rw [h before e after htaken, List.append_nil, htaken, List.getElem?_map,
      List.getElem?_append_right (Nat.le_add_right _ 1), Nat.add_sub_cancel_left]
    cases after <;> rfl
  unfold blockSeconds
  rw [hblock, Option.map_some, hexit]
  rfl

/-- The time of a range of blocks is the sum of their times. -/
theorem rangeSeconds_taken {taken : List (Taken K)} (h : Linked taken [])
    (config : MotionConfig K) {before blocks after : List (Taken K)}
    (htaken : taken = before ++ blocks ++ after) :
    rangeSeconds (taken.map Taken.block) config before.length
        (before.length + blocks.length)
      = some (blocks.map (Taken.seconds config)).sum := by
  have hfold : ∀ (blocks before : List (Taken K)) (seconds : K),
      taken = before ++ blocks ++ after →
      (List.range' before.length blocks.length).foldlM
          (fun seconds i => (blockSeconds (taken.map Taken.block) config i).map (seconds + ·))
          seconds
        = some (seconds + (blocks.map (Taken.seconds config)).sum) := by
    intro blocks
    induction blocks with
    | nil =>
      intro before seconds _
      simp
    | cons e blocks ih =>
      intro before seconds hsplit
      have hnext : taken = (before ++ [e]) ++ blocks ++ after := by
        rw [hsplit]
        simp
      have hlength : before.length + 1 = (before ++ [e]).length := by simp
      have he : taken = before ++ e :: (blocks ++ after) := by
        rw [hsplit]
        simp
      rw [List.length_cons, List.range'_succ, List.foldlM_cons,
        blockSeconds_taken h he config, Option.map_some]
      show (List.range' (before.length + 1) blocks.length).foldlM _ _ = _
      rw [hlength, ih _ _ hnext, List.map_cons, List.sum_cons, add_assoc]
  unfold rangeSeconds
  rw [Nat.add_sub_cancel_left, hfold blocks before 0 htaken, zero_add]

/-- A command is charged its blocks, and no block is looked up that is not there. -/
theorem resolve_charges {s : Sim K} (h : s.Accounted) (hnil : s.planner.blocks = [])
    (howners : s.owners = []) (config : MotionConfig K) {i : ℕ} {slot : Slot K}
    (howns : Owns s.owned i slot) :
    ∃ step, slot.resolve s.blocks config = some step ∧ step.Charges config (s.blocksOf i) := by
  have howned : s.owned = s.taken.map Taken.owner := by
    unfold Sim.owned
    rw [howners, List.map_nil, List.append_nil]
  have hlinked := h.linked
  rw [hnil] at hlinked
  rw [howned] at howns
  -- The blocks of another command are not among its own.
  have hothers : ∀ l : List (Taken K), some i ∉ l.map Taken.owner →
      l.filter (fun e => e.owner = some i) = [] := by
    intro l hl
    rw [List.filter_eq_nil_iff]
    intro e he hi
    exact hl (List.mem_map.2 ⟨e, he, of_decide_eq_true hi⟩)
  cases slot with
  | done step =>
    refine ⟨step, rfl, ?_⟩
    have hnone : s.blocksOf i = [] := hothers s.taken howns.2
    cases step with
    | move seconds rapid => exact nomatch howns.1
    | _ => exact hnone
  | move start stop =>
    obtain ⟨before, after, n, hall, hstart, hstop, hbefore, hafter⟩ := howns
    obtain ⟨front, last, htaken, hfront, hlast⟩ := List.map_eq_append_iff.1 hall
    obtain ⟨first, mine, hsplit, hfirst, hmine⟩ := List.map_eq_append_iff.1 hfront
    have hlength : first.length = start := by
      rw [← hstart, ← hfirst, List.length_map]
    have hcount : mine.length = n := by
      have hlen := congrArg List.length hmine
      rwa [List.length_map, List.length_replicate] at hlen
    have hown : s.blocksOf i = mine := by
      unfold Sim.blocksOf
      rw [htaken, hsplit, List.filter_append, List.filter_append,
        hothers first (by rwa [hfirst]), hothers last (by rwa [hlast]), List.nil_append,
        List.append_nil, List.filter_eq_self]
      intro e he
      have hmem : e.owner ∈ List.replicate n (some i) := by
        rw [← hmine]
        exact List.mem_map_of_mem he
      exact decide_eq_true (List.eq_of_mem_replicate hmem)
    have hrange := rangeSeconds_taken hlinked config (by rw [htaken, hsplit])
    rw [hlength, hcount, hstop, ← h.blocks] at hrange
    have hrapid : ∃ rapid, rangeRapid s.blocks start stop = some rapid := by
      unfold rangeRapid
      split
      · rename_i hlt
        have hin : start < s.blocks.length := by
          rw [h.blocks, List.length_map, htaken, hsplit, List.length_append,
            List.length_append, hlength, hcount]
          omega
        rw [List.getElem?_eq_getElem hin]
        exact ⟨_, rfl⟩
      · exact ⟨false, rfl⟩
    obtain ⟨rapid, hrapid⟩ := hrapid
    refine ⟨.move (mine.map (Taken.seconds config)).sum rapid, ?_, ?_⟩
    · simp only [Slot.resolve, hrange, hrapid]
      rfl
    · show _ = _
      rw [hown]

/-- A list of lookups that all succeed. -/
theorem mapM_some {A B : Type} {f : A → Option B} {l : List A} {P : ℕ → B → Prop}
    (h : ∀ i a, l[i]? = some a → ∃ b, f a = some b ∧ P i b) :
    ∃ bs, l.mapM f = some bs ∧ bs.length = l.length ∧ ∀ i b, bs[i]? = some b → P i b := by
  induction l generalizing P with
  | nil => exact ⟨[], rfl, rfl, fun i b hb => absurd hb (by simp)⟩
  | cons a l ih =>
    obtain ⟨b, hb, hP⟩ := h 0 a rfl
    obtain ⟨bs, hbs, hlength, hrest⟩ := ih (P := fun i => P (i + 1)) fun i a ha =>
      h (i + 1) a ha
    refine ⟨b :: bs, ?_, congrArg (· + 1) hlength, fun i c hc => ?_⟩
    · rw [List.mapM_cons, hb, hbs]
      rfl
    · cases i with
      | zero =>
        obtain rfl := Option.some.inj hc
        exact hP
      | succ i => exact hrest i c hc

variable [IsStrictOrderedRing K]

/-- **The account of a simulation.** The simulator gives one step for each command. Every
block that came into the queue was taken, and belongs to a command. A motion is charged
the time of the blocks that belong to it, each left at the entry of the block behind it
in the queue when it was taken; no other step has blocks. -/
theorem simulate_accounts (commands : List (PlannerCommand K))
    (plannerConfig : PlannerConfig K) (motionConfig : MotionConfig K) :
    ∃ steps, simulate commands plannerConfig motionConfig = some steps
      ∧ steps.length = commands.length
      ∧ (∀ (i : ℕ) (step : SimStep K), steps[i]? = some step →
        step.Charges motionConfig ((Sim.run commands plannerConfig).blocksOf i))
      ∧ (Sim.run commands plannerConfig).planner.blocks = []
      ∧ (Sim.run commands plannerConfig).owners = []
      ∧ ∀ e ∈ (Sim.run commands plannerConfig).taken,
        ∃ i < commands.length, e.owner = some i := by
  have hsettled := (Sim.settled_new plannerConfig).simulateCommands commands
  rw [Nat.zero_add] at hsettled
  obtain ⟨hacc, hgrown, hnil⟩ := hsettled.accounted.drainQueue
  have htiles := hsettled.tiles
  have hslots := hsettled.slots
  have howned := hgrown.owned
  rw [List.replicate_zero, List.append_nil] at howned
  rw [← howned, ← hgrown.slots] at htiles
  rw [← hgrown.slots] at hslots
  set s := Sim.run commands plannerConfig with hs
  have hrun : (Sim.simulateCommands 0 commands (Sim.new plannerConfig)).drainQueue = s := rfl
  rw [hrun] at hacc hnil htiles hslots
  have howners : s.owners = [] := by
    rw [← List.length_eq_zero_iff, hacc.owners, hnil]
    rfl
  obtain ⟨steps, hsteps, hlength, hcharges⟩ := mapM_some (l := s.slots)
    (P := fun i (step : SimStep K) => step.Charges motionConfig (s.blocksOf i)) fun i slot hslot =>
      resolve_charges hacc hnil howners motionConfig (htiles.owns hslot)
  refine ⟨steps, hsteps, hlength.trans hslots, hcharges, hnil, howners, fun e he => ?_⟩
  have hmem : e.owner ∈ s.owned :=
    List.mem_append_left _ (List.mem_map_of_mem he)
  obtain ⟨i, hi, heq⟩ := htiles.owner_lt _ hmem
  exact ⟨i, hslots ▸ hi, heq⟩

/-- A dwell between two moves, in rational arithmetic. -/
theorem simulate_accounts_rat :
    ∃ steps, simulate [.moveX true 10 0, .dwell 1, .moveX false 20 500] benchConfig
        MotionConfig.default = some steps
      ∧ steps.length = 3 := by
  obtain ⟨steps, hsteps, hlength, _⟩ := simulate_accounts
    [.moveX true 10 0, .dwell 1, .moveX false 20 500] benchConfig MotionConfig.default
  exact ⟨steps, hsteps, hlength⟩

end Times

end Galdr
