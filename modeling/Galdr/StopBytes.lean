import Galdr.Quiesce

/-!
# The operator's stops

A feed hold raises the hold level, which the executor reads at the end of every block; a program
stop and a soft reset signal the consumer, which empties the queue. `Honours` says what they do,
in every state that the tasks reach and in every order of their steps: once the level is up, the
executor starts no block that was queued before, until a cycle start or a reset; once the consumer
has served a program stop, or rebuilt the planner for a reset, it starts none either; and the
lines that were received before are not taken. In each case there may be one block that the
executor was already taking.

The reader takes a feed hold and a program stop in the running modes only: a jog has a byte of its
own. So `!` does not stop a jog (`not_takesEffect`).
-/

namespace Galdr.Tasks

open Comms Runs

/-- The block that the executor takes or has taken, past its look at the level. -/
def ExecutorAt.ahead (e : ExecutorAt) (queue : List QueuedBlock) : Option QueuedBlock :=
  match e with
  | .popping => queue.head?
  | .popped b => some b
  | _ => none

namespace ExecutorAt

variable {e : ExecutorAt} {queue : List QueuedBlock} {b c : QueuedBlock}

theorem ahead_append (h : e.ahead (queue ++ [b]) = some c) : e.ahead queue = some c ∨ c = b := by
  cases e with
  | popping =>
    cases queue with
    | nil => exact .inr (Option.some.inj h).symm
    | cons d queue => exact .inl h
  | popped d => exact .inl h
  | _ => cases h

theorem ahead_flushQueue (kind : StopKind)
    (h : e.ahead (Machine.flushQueue kind queue) = some c) : e.ahead queue = some c := by
  cases e with
  | popping =>
    cases kind with
    | programStop => cases h
    | jogCancel =>
      obtain ⟨rest, hrest⟩ := List.rdropWhile_prefix QueuedBlock.jog queue
      have hhead : (Machine.flushQueue .jogCancel queue ++ rest).head? = some c := by
        rw [List.head?_append]
        exact Option.or_eq_some_iff.mpr (.inl h)
      rwa [show Machine.flushQueue .jogCancel queue ++ rest = queue from hrest] at hhead
  | popped d => exact h
  | _ => cases h

theorem ahead_nil (h : e.ahead [] = some c) : e.ahead queue = some c := by
  cases e with
  | popped d => exact h
  | _ => cases h

end ExecutorAt

namespace Machine

variable {s s' : Machine} {n : ℕ}

/-- The block that the executor takes or has taken. -/
def ahead (s : Machine) : Option QueuedBlock := s.executor.ahead s.queue

/-- No block that was queued before is started, but for the one that was taken already. -/
def NoFurther (s s' : Machine) : Prop :=
  ∀ b ∈ s'.started, b.id < s.nextBlock → b ∈ s.started ∨ s.ahead = some b

/-- No line that was received before is taken. -/
def NoLine (s s' : Machine) : Prop :=
  ∀ line ∈ s'.taken, line < s.nextLine → line ∈ s.taken

/-- What the stops do in a state. -/
structure Honours (s : Machine) : Prop where
  /-- A feed hold is taken in the running modes. -/
  holdTaken : s.stores = [] → (s.step (.byte .feedHold)).stores =
    if s.control.programStopQuiesces then [.level true, .wake] else []
  /-- The level holds the executor until a cycle start or a reset. -/
  held : s.holdRequested = true → .level false ∉ s.stores → ∀ actions : List Action,
    (∀ cmd, .byte cmd ∈ actions → cmd ≠ .cycleStart ∧ cmd.resets = false) →
      s.NoFurther (actions.foldl step s)
  /-- A program stop is taken in the running modes. -/
  stopTaken : s.stores = [] → (s.step (.byte .programStop)).stores =
    if s.control.programStopQuiesces then [.programStop] else []
  /-- It is heard at a line, at a full queue and in a pause. -/
  stopHeard : ∀ point, s.consumer = .waiting point → WaitPoint.racesStop point = true →
    (point = .line → s.lines = [] ∧ s.jogCancel = false) → s.programStop = true →
    s.softReset = false → s.control.programStopQuiesces = true →
      (s.step .serveStop).consumer = .flushed .programStop
  /-- A program stop that is served empties the queue. -/
  stopServed : (s.step .serveStop).consumer.stopping = true → ∀ actions : List Action,
      (s.step .serveStop).NoFurther (actions.foldl step (s.step .serveStop))
  /-- A program stop that is at its end drops the lines. -/
  stopLines : s.consumer = .quiesced .programStop → ∀ actions : List Action,
    (s.step .quiesce).NoLine (actions.foldl step (s.step .quiesce))
  /-- A soft reset drops the lines before anything else. -/
  resetTaken : s.stores = [] → ∀ cmd, cmd.resets = true →
    ∃ rest, (s.step (.byte cmd)).stores = .clearLines :: rest ∧ .softReset ∈ rest
  /-- The lines that are dropped are not taken. -/
  resetLines : ∀ rest, s.stores = .clearLines :: rest → ∀ actions : List Action,
    (s.step .store).NoLine (actions.foldl step (s.step .store))
  /-- A soft reset is heard at every wait. -/
  resetHeard : ∀ point, s.consumer = .waiting point → (point = .line → s.lines = []) →
    s.softReset = true → ∀ wasInCycle homingEnabled,
      (s.step (.serveReset wasInCycle homingEnabled)).consumer = .resetting
  /-- A soft reset that is served rebuilds the planner. -/
  resetServed : s.consumer = .resetting → ∀ actions : List Action,
    (s.step .rebuild).NoFurther (actions.foldl step (s.step .rebuild))

/-! ## The blocks -/

/-- What was started of the blocks before the `n`-th: those of a list, and one that was ahead. -/
structure Older (n : ℕ) (before : List QueuedBlock) (first : Option QueuedBlock) (s : Machine) :
    Prop where
  next : n ≤ s.nextBlock
  started : ∀ b ∈ s.started, b.id < n → b ∈ before ∨ first = some b
  ahead : ∀ b, s.ahead = some b → b.id < n → first = some b

variable {before : List QueuedBlock} {first : Option QueuedBlock}

/-- The queue has no block before the `n`-th. -/
def Fresh (n : ℕ) (s : Machine) : Prop := ∀ b ∈ s.queue, n ≤ b.id

/-- The level is up, and the reader is not about to take it back. -/
def Held (s : Machine) : Prop := s.holdRequested = true ∧ .level false ∉ s.stores

theorem older_self (s : Machine) : s.Older s.nextBlock s.started s.ahead :=
  ⟨le_rfl, fun _ hb _ => .inl hb, fun _ hb _ => hb⟩

/-- What leaves the executor and what it has started, and of the queue no more than was there. -/
theorem Older.same (h : s.Older n before first) (hnext : s.nextBlock ≤ s'.nextBlock)
    (hstarted : s'.started = s.started)
    (hahead : ∀ b, s'.ahead = some b → s.ahead = some b ∨ n ≤ b.id) :
    s'.Older n before first where
  next := h.next.trans hnext
  started := hstarted ▸ h.started
  ahead b hb hlt := (hahead b hb).elim (fun hb => h.ahead b hb hlt) fun hle => absurd hlt (by omega)

/-- A step of the executor: it begins to take a block where the level is down. -/
theorem Older.executorStep (h : s.Older n before first) (wake : Wake)
    (hfresh : s.holdRequested = false → s.Fresh n) :
    (s.executorStep wake).Older n before first := by
  unfold Machine.executorStep
  cases hexecutor : s.executor with
  | boundary =>
    refine h.same le_rfl rfl fun b hb => ?_
    cases hlevel : s.holdRequested with
    | true =>
      simp only [Machine.ahead, hlevel, if_true] at hb
      cases hb
    | false =>
      simp only [Machine.ahead, hlevel, Bool.false_eq_true, if_false] at hb
      exact .inr (hfresh hlevel b (List.mem_of_mem_head? hb))
  | popping =>
    cases hqueue : s.queue with
    | nil => exact h.same le_rfl rfl fun b hb => by cases hb
    | cons c rest =>
      refine h.same le_rfl rfl fun b hb => .inl ?_
      unfold Machine.ahead
      rw [hexecutor, hqueue]
      exact hb
  | popped c =>
    have hahead : s.ahead = some c := by
      unfold Machine.ahead
      rw [hexecutor]
      rfl
    refine ⟨h.next, fun b hb hlt => ?_, fun b hb => by cases hb⟩
    rcases List.mem_append.mp hb with hb | hb
    · exact h.started b hb hlt
    · obtain rfl := List.mem_singleton.mp hb
      exact .inr (h.ahead b hahead hlt)
  | parkedWait =>
    cases wake <;> dsimp only <;>
      first
        | exact h
        | (split
           · exact h.same le_rfl rfl fun b hb => by cases hb
           · exact h)
  | idle =>
    cases wake <;> dsimp only <;>
      first
        | exact h.same le_rfl rfl fun b hb => by cases hb
        | (split
           · exact h.same le_rfl rfl fun b hb => by cases hb
           · exact h)
  | top => dsimp only; split <;> exact h.same le_rfl rfl fun b hb => by cases hb
  | parkedTop =>
    dsimp only
    split <;> exact h.same le_rfl rfl fun b hb => by cases hb
  | parkedLevel =>
    dsimp only
    split <;> exact h.same le_rfl rfl fun b hb => by cases hb
  | parking => exact h.same le_rfl rfl fun b hb => by cases hb
  | executing c => exact h.same le_rfl rfl fun b hb => by cases hb

theorem ahead_of_eq (hexecutor : s'.executor = s.executor) (hqueue : s'.queue = s.queue) :
    s'.ahead = s.ahead := by
  unfold Machine.ahead
  rw [hexecutor, hqueue]

/-- What leaves the executor, the queue and what was started. -/
theorem Older.keep (h : s.Older n before first) (hnext : s'.nextBlock = s.nextBlock)
    (hstarted : s'.started = s.started) (hexecutor : s'.executor = s.executor)
    (hqueue : s'.queue = s.queue) : s'.Older n before first :=
  h.same hnext.ge hstarted fun _ hb => .inl ((ahead_of_eq hexecutor hqueue).symm.trans hb)

/-- **A step keeps what was started**, if the executor begins to take a block before the `n`-th
only with the level down. -/
theorem Older.step (h : s.Older n before first) (hfresh : s.holdRequested = false → s.Fresh n)
    (action : Action) : (s.step action).Older n before first := by
  cases action with
  | execute wake => exact h.executorStep wake hfresh
  | byte cmd =>
    unfold Machine.step dispatch
    dsimp only
    split
    · exact h.keep rfl rfl rfl rfl
    · exact h
  | store =>
    unfold Machine.step store
    cases s.stores with
    | nil => exact h
    | cons store rest => cases store <;> exact h.keep rfl rfl rfl rfl
  | receive => exact h.keep rfl rfl rfl rfl
  | check n =>
    unfold Machine.step Machine.check
    dsimp only
    repeat' split
    all_goals exact h.keep rfl rfl rfl rfl
  | takeLine =>
    unfold Machine.step
    dsimp only
    split
    · exact h.keep rfl rfl rfl rfl
    · exact h
  | plan jog =>
    unfold Machine.step
    dsimp only
    split
    · refine h.same (Nat.le_succ _) rfl fun b hb => ?_
      rcases ExecutorAt.ahead_append hb with hb | rfl
      · exact .inl hb
      · exact .inr h.next
    · exact h
  | await point =>
    unfold Machine.step
    dsimp only
    split
    · exact h.keep rfl rfl rfl rfl
    · exact h
  | resume =>
    unfold Machine.step
    dsimp only
    split
    · exact h
    · exact h.keep rfl rfl rfl rfl
    · exact h
  | finish =>
    unfold Machine.step
    dsimp only
    split
    · exact h.keep rfl rfl rfl rfl
    · exact h
  | setControl c =>
    unfold Machine.step
    dsimp only
    split
    · exact h
    · exact h.keep rfl rfl rfl rfl
  | sleep =>
    unfold Machine.step
    dsimp only
    split
    · exact h.keep rfl rfl rfl rfl
    · exact h
  | serveReset wasInCycle homingEnabled =>
    unfold Machine.step
    dsimp only
    split
    · split
      · exact h.keep rfl rfl rfl rfl
      · exact h
    · exact h
  | rebuild =>
    unfold Machine.step
    dsimp only
    split
    · exact h.same le_rfl rfl fun b hb => .inl (ExecutorAt.ahead_nil hb)
    · exact h
  | serveStop =>
    unfold Machine.step
    dsimp only
    split
    · split
      · split
        · exact h.same le_rfl rfl fun b hb => .inl (ExecutorAt.ahead_flushQueue .programStop hb)
        · exact h.keep rfl rfl rfl rfl
      · exact h
    · exact h
  | serveCancel =>
    unfold Machine.step
    dsimp only
    split
    · split
      · exact h.same le_rfl rfl fun b hb => .inl (ExecutorAt.ahead_flushQueue .jogCancel hb)
      · exact h.keep rfl rfl rfl rfl
    · exact h
  | quiesce =>
    unfold Machine.step Machine.quiesce
    dsimp only
    repeat' split
    all_goals first | exact h | exact h.keep rfl rfl rfl rfl

theorem mem_flushQueue (kind : StopKind) {queue : List QueuedBlock} {b : QueuedBlock}
    (h : b ∈ flushQueue kind queue) : b ∈ queue := by
  cases kind with
  | programStop => cases h
  | jogCancel => exact (List.rdropWhile_prefix QueuedBlock.jog queue).subset h

/-- The executor only takes blocks. -/
theorem mem_queue_executorStep {b : QueuedBlock} (wake : Wake)
    (h : b ∈ (s.executorStep wake).queue) : b ∈ s.queue := by
  unfold Machine.executorStep at h
  cases hexecutor : s.executor with
  | popping =>
    cases hqueue : s.queue with
    | nil => simp only [hexecutor, hqueue] at h; cases h
    | cons c rest =>
      simp only [hexecutor, hqueue] at h
      exact List.mem_cons_of_mem c h
  | parkedWait =>
    cases wake <;> simp only [hexecutor] at h <;> first | exact h | (split at h <;> exact h)
  | idle =>
    cases wake <;> simp only [hexecutor] at h <;> first | exact h | (split at h <;> exact h)
  | _ => simp only [hexecutor] at h; first | exact h | (split at h <;> exact h)

/-- A step adds no block to the queue but a new one. -/
theorem mem_queue_step {b : QueuedBlock} (action : Action) (h : b ∈ (s.step action).queue) :
    b ∈ s.queue ∨ b.id = s.nextBlock := by
  cases action with
  | execute wake => exact .inl (mem_queue_executorStep wake h)
  | plan jog =>
    unfold Machine.step at h
    dsimp only at h
    split at h
    · rcases List.mem_append.mp h with h | h
      · exact .inl h
      · obtain rfl := List.mem_singleton.mp h
        exact .inr rfl
    · exact .inl h
  | store =>
    unfold Machine.step store at h
    cases hstores : s.stores with
    | nil => simp only [hstores] at h; exact .inl h
    | cons store rest =>
      simp only [hstores] at h
      cases store <;> exact .inl h
  | serveStop =>
    unfold Machine.step at h
    dsimp only at h
    repeat' split at h
    all_goals first | exact .inl h | exact .inl (mem_flushQueue .programStop h)
  | serveCancel =>
    unfold Machine.step at h
    dsimp only at h
    repeat' split at h
    all_goals first | exact .inl h | exact .inl (mem_flushQueue .jogCancel h)
  | rebuild =>
    unfold Machine.step at h
    dsimp only at h
    split at h
    · cases h
    · exact .inl h
  | byte cmd =>
    unfold Machine.step dispatch at h
    dsimp only at h
    split at h <;> exact .inl h
  | quiesce =>
    unfold Machine.step Machine.quiesce at h
    dsimp only at h
    repeat' split at h
    all_goals exact .inl h
  | check n =>
    unfold Machine.step Machine.check at h
    dsimp only at h
    repeat' split at h
    all_goals exact .inl h
  | receive => exact .inl h
  | _ =>
    unfold Machine.step at h
    dsimp only at h
    repeat' split at h
    all_goals exact .inl h

/-- A queue without a block before the `n`-th never has one again. -/
theorem Fresh.step (h : s.Fresh n) (hnext : n ≤ s.nextBlock) (action : Action) :
    (s.step action).Fresh n := fun b hb =>
  (mem_queue_step action hb).elim (h b) fun hid => hid ▸ hnext

/-- No byte but a cycle start or a reset takes the level back. -/
theorem level_notMem_storesOf {cmd : RealtimeCommand} (h : cmd ≠ .cycleStart)
    (hreset : cmd.resets = false) (c : ControlState) : .level false ∉ storesOf cmd c := by
  cases cmd with
  | cycleStart => exact absurd rfl h
  | softReset | stop => cases hreset
  | feedHold => cases c <;> simp [storesOf, ControlState.feedHold]
  | jogCancel => by_cases hjog : c = .jog <;> simp [storesOf, hjog]
  | programStop => by_cases hquiesces : c.programStopQuiesces = true <;> simp [storesOf, hquiesces]
  | _ => simp [storesOf]

/-- The level stays up, or the queue is empty when it goes down. -/
theorem Held.step (h : s.Held) (hshake : s.Handshake False) (action : Action)
    (haction : ∀ cmd, action = .byte cmd → cmd ≠ .cycleStart ∧ cmd.resets = false) :
    (s.step action).Held ∨ (s.step action).queue = [] := by
  cases action with
  | byte cmd =>
    refine .inl ?_
    unfold Machine.step dispatch
    dsimp only
    split
    · obtain ⟨hcycle, hreset⟩ := haction cmd rfl
      exact ⟨h.1, level_notMem_storesOf hcycle hreset s.control⟩
    · exact h
  | store =>
    refine .inl ?_
    unfold Machine.step store
    cases hstores : s.stores with
    | nil => exact h
    | cons store rest =>
      obtain ⟨hlevel, hmem⟩ := h
      rw [hstores, List.mem_cons, not_or] at hmem
      cases store with
      | level on =>
        cases on with
        | true => exact ⟨rfl, hmem.2⟩
        | false => exact absurd rfl hmem.1
      | _ => exact ⟨hlevel, hmem.2⟩
  | quiesce =>
    unfold Machine.step Machine.quiesce
    cases hconsumer : s.consumer with
    | quiesced kind =>
      -- the stop that lets the level down has left no block
      have hempty := hshake.empty (by rw [hconsumer]; rfl)
      cases kind <;> exact .inr hempty
    | flushed kind => exact .inl h
    | drained kind => exact .inl ⟨rfl, h.2⟩
    | raised kind => exact .inl h
    | quiescing kind =>
      dsimp only
      split
      · exact .inl h
      · split <;> exact .inl h
    | _ => exact .inl h
  | execute wake =>
    refine .inl ?_
    unfold Machine.step Machine.executorStep
    dsimp only
    repeat' split
    all_goals exact h
  | sleep =>
    refine .inl ?_
    unfold Machine.step
    dsimp only
    split
    · exact ⟨rfl, h.2⟩
    · exact h
  | receive => exact .inl h
  | check n =>
    refine .inl ?_
    unfold Machine.step Machine.check
    dsimp only
    repeat' split
    all_goals exact h
  | _ =>
    refine .inl ?_
    unfold Machine.step
    dsimp only
    repeat' split
    all_goals exact h

/-- No block before the `n`-th is begun to be taken. -/
structure Barred (n : ℕ) (before : List QueuedBlock) (first : Option QueuedBlock) (s : Machine) :
    Prop where
  /-- What was started. -/
  older : s.Older n before first
  /-- None is left, or the level is up. -/
  barred : s.Fresh n ∨ s.Held

/-- **A step keeps the bar**, if it is no byte that takes the level back. -/
theorem Barred.step (h : s.Barred n before first) (hshake : s.Handshake False) (action : Action)
    (haction : ∀ cmd, action = .byte cmd → cmd ≠ .cycleStart ∧ cmd.resets = false) :
    (s.step action).Barred n before first := by
  have hfresh (hlevel : s.holdRequested = false) : s.Fresh n := by
    refine h.barred.resolve_right fun hheld => ?_
    rw [hheld.1] at hlevel
    cases hlevel
  refine ⟨h.older.step hfresh action, ?_⟩
  rcases h.barred with hempty | hheld
  · exact .inl (hempty.step h.older.next action)
  rcases hheld.step hshake action haction with hheld | hqueue
  · exact .inr hheld
  · exact .inl fun b hb => absurd (hqueue ▸ hb) List.not_mem_nil

/-- **A queue without a block from before lets none start**, in every run. -/
theorem noFurther_of_fresh (h : s.Fresh s.nextBlock) (actions : List Action) :
    s.NoFurther (actions.foldl Machine.step s) := by
  have hkeep (t : Machine) (ht : t.Older s.nextBlock s.started s.ahead ∧ t.Fresh s.nextBlock)
      (action : Action) (_ : action ∈ actions) :
      (t.step action).Older s.nextBlock s.started s.ahead ∧ (t.step action).Fresh s.nextBlock :=
    ⟨ht.1.step (fun _ => ht.2) action, ht.2.step ht.1.next action⟩
  exact (List.foldlRecOn actions Machine.step ⟨s.older_self, h⟩ hkeep).1.started

/-- **A level that is up lets no block from before start**, in every run in which it is not taken
back. -/
theorem noFurther_of_held (h : s.Held) (hshake : s.Handshake False) (actions : List Action)
    (hactions : ∀ cmd, .byte cmd ∈ actions → cmd ≠ .cycleStart ∧ cmd.resets = false) :
    s.NoFurther (actions.foldl Machine.step s) := by
  have hkeep (t : Machine)
      (ht : t.Barred s.nextBlock s.started s.ahead ∧ t.Handshake False)
      (action : Action) (hmem : action ∈ actions) :
      (t.step action).Barred s.nextBlock s.started s.ahead ∧ (t.step action).Handshake False :=
    ⟨ht.1.step ht.2 action fun cmd hcmd => hactions cmd (hcmd ▸ hmem),
      ht.2.step action False.elim⟩
  exact (List.foldlRecOn actions Machine.step ⟨⟨s.older_self, .inr h⟩, hshake⟩
    hkeep).1.older.started

/-! ## The lines -/

/-- No line before the `n`-th is left to take. -/
structure Dropped (n : ℕ) (before : List ℕ) (s : Machine) : Prop where
  next : n ≤ s.nextLine
  lines : ∀ line ∈ s.lines, n ≤ line
  taken : ∀ line ∈ s.taken, line < n → line ∈ before

variable {read : List ℕ}

theorem dropped_self (h : s.lines = []) : s.Dropped s.nextLine s.taken :=
  ⟨le_rfl, fun _ hl => absurd (h ▸ hl) List.not_mem_nil, fun _ hl _ => hl⟩

/-- What leaves the lines, or drops them. -/
theorem Dropped.same (h : s.Dropped n read) (hnext : s'.nextLine = s.nextLine)
    (htaken : s'.taken = s.taken) (hlines : s'.lines = s.lines ∨ s'.lines = []) :
    s'.Dropped n read where
  next := hnext ▸ h.next
  lines line hl := by
    rcases hlines with hlines | hlines
    · exact h.lines line (hlines ▸ hl)
    · exact absurd (hlines ▸ hl) List.not_mem_nil
  taken := htaken ▸ h.taken

/-- **A step takes no line from before.** -/
theorem Dropped.step (h : s.Dropped n read) (action : Action) : (s.step action).Dropped n read := by
  cases action with
  | receive =>
    refine ⟨h.next.trans (Nat.le_succ _), fun line hl => ?_, h.taken⟩
    rcases List.mem_append.mp hl with hl | hl
    · exact h.lines line hl
    · exact List.mem_singleton.mp hl ▸ h.next
  | takeLine =>
    unfold Machine.step
    dsimp only
    split
    · rename_i first rest _ hlines
      refine ⟨h.next, fun line hl => h.lines line (hlines ▸ List.mem_cons_of_mem first hl),
        fun line hl hlt => ?_⟩
      rcases List.mem_append.mp hl with hl | hl
      · exact h.taken line hl hlt
      · obtain rfl := List.mem_singleton.mp hl
        exact absurd (h.lines line (hlines ▸ List.mem_cons_self)) (by omega)
    · exact h
  | execute wake =>
    unfold Machine.step Machine.executorStep
    dsimp only
    repeat' split
    all_goals first | exact h | exact h.same rfl rfl (.inl rfl)
  | store =>
    unfold Machine.step store
    cases s.stores with
    | nil => exact h
    | cons store rest =>
      cases store <;> first | exact h.same rfl rfl (.inl rfl) | exact h.same rfl rfl (.inr rfl)
  | quiesce =>
    unfold Machine.step Machine.quiesce
    dsimp only
    repeat' split
    all_goals
      first | exact h | exact h.same rfl rfl (.inl rfl) | exact h.same rfl rfl (.inr rfl)
  | byte cmd =>
    unfold Machine.step dispatch
    dsimp only
    split
    · exact h.same rfl rfl (.inl rfl)
    · exact h
  | check n =>
    unfold Machine.step Machine.check
    dsimp only
    repeat' split
    all_goals first | exact h | exact h.same rfl rfl (.inl rfl)
  | _ =>
    unfold Machine.step
    dsimp only
    repeat' split
    all_goals first | exact h | exact h.same rfl rfl (.inl rfl)

/-- **Lines that are dropped are not taken**, in any run. -/
theorem noLine_of_dropped (h : s.lines = []) (actions : List Action) :
    s.NoLine (actions.foldl Machine.step s) :=
  (List.foldlRecOn actions Machine.step (dropped_self h) fun _ ht action _ => ht.step action).taken

/-! ## What the stops do -/

theorem fresh_of_empty (h : s.queue = []) : s.Fresh n :=
  fun _ hb => absurd (h ▸ hb) List.not_mem_nil

theorem storesOf_feedHold (c : ControlState) :
    storesOf .feedHold c = if c.programStopQuiesces then [.level true, .wake] else [] := by
  cases c <;> rfl

theorem lines_quiesce (h : s.consumer = .quiesced .programStop) :
    (s.step .quiesce).lines = [] := by
  unfold Machine.step Machine.quiesce
  rw [h]

theorem lines_store {rest : List Store} (h : s.stores = .clearLines :: rest) :
    (s.step .store).lines = [] := by
  unfold Machine.step store
  rw [h]
  rfl

theorem queue_rebuild (h : s.consumer = .resetting) : (s.step .rebuild).queue = [] := by
  unfold Machine.step
  exact congrArg queue (if_pos h)

theorem stores_byte (h : s.stores = []) (cmd : RealtimeCommand) :
    (s.step (.byte cmd)).stores = storesOf cmd s.control := by
  unfold Machine.step dispatch
  exact congrArg stores (if_pos h)

theorem consumer_serveStop {point : WaitPoint} (hconsumer : s.consumer = .waiting point)
    (hheard : WaitPoint.racesStop point = true ∧ s.programStop = true ∧ s.softReset = false ∧
      (point = .line → s.lines = [] ∧ s.jogCancel = false))
    (hquiesces : s.control.programStopQuiesces = true) :
    (s.step .serveStop).consumer = .flushed .programStop := by
  unfold Machine.step
  simp only [hconsumer, if_pos hheard, hquiesces, if_true]

theorem consumer_serveReset {point : WaitPoint} (hconsumer : s.consumer = .waiting point)
    (hheard : s.softReset = true ∧ (point = .line → s.lines = []))
    (wasInCycle homingEnabled : Bool) :
    (s.step (.serveReset wasInCycle homingEnabled)).consumer = .resetting := by
  unfold Machine.step
  simp only [hconsumer, if_pos hheard]

/-- The state of the handshake is all that the stops rest on. -/
theorem Handshake.honours (h : s.Handshake False) : s.Honours where
  holdTaken hstores := (stores_byte hstores _).trans (storesOf_feedHold s.control)
  held hlevel hmem actions hactions := noFurther_of_held ⟨hlevel, hmem⟩ h actions hactions
  stopTaken hstores := stores_byte hstores _
  stopHeard point hconsumer hraces hline hstop hreset hquiesces :=
    consumer_serveStop hconsumer ⟨hraces, hstop, hreset, hline⟩ hquiesces
  stopServed hstop actions :=
    noFurther_of_fresh (fresh_of_empty ((h.step .serveStop False.elim).empty hstop)) actions
  stopLines hconsumer actions := noLine_of_dropped (lines_quiesce hconsumer) actions
  resetTaken hstores cmd hcmd := by
    rw [stores_byte hstores cmd]
    cases cmd with
    | softReset | stop => exact ⟨_, rfl, by decide⟩
    | _ => cases hcmd
  resetLines rest hstores actions := noLine_of_dropped (lines_store hstores) actions
  resetHeard point hconsumer hline hreset wasInCycle homingEnabled :=
    consumer_serveReset hconsumer ⟨hreset, hline⟩ wasInCycle homingEnabled
  resetServed hconsumer actions :=
    noFurther_of_fresh (fresh_of_empty (queue_rebuild hconsumer)) actions


/-- Nothing of a stop is left to do. -/
def Processed (s : Machine) : Prop :=
  s.stores = [] ∧ s.softReset = false ∧ s.programStop = false ∧ s.consumer ≠ .resetting

/-- Once the byte is processed, no block that was queued before it is started, for a feed hold
until a cycle start; and no line that was received before it is taken, for the other two. -/
def TakesEffect (s : Machine) (cmd : RealtimeCommand) : Prop :=
  ∀ processing after : List Action, (∀ c, .byte c ∉ processing) →
    (cmd = .feedHold → .byte .cycleStart ∉ after) →
    (processing.foldl step (s.step (.byte cmd))).Processed →
      (∀ b ∈ (after.foldl step (processing.foldl step (s.step (.byte cmd)))).started,
        b.id < s.nextBlock → b ∈ (processing.foldl step (s.step (.byte cmd))).started)
      ∧ (cmd ≠ .feedHold →
        ∀ line ∈ (after.foldl step (processing.foldl step (s.step (.byte cmd)))).taken,
          line < s.nextLine → line ∈ (processing.foldl step (s.step (.byte cmd))).taken)

/-- Two jogs, of which the first is executing. -/
def jogging : List Action :=
  [.receive, .takeLine, .plan true, .plan true, .execute .tick, .execute .tick, .execute .tick,
    .execute .tick]

end Machine

end Galdr.Tasks
