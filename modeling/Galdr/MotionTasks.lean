import Galdr.Realtime

/-!
# The tasks behind motion

Two cores share the planner queue. On one, the reader dispatches the operator's bytes and
the consumer plans lines, waits, and stops the machine; on the other, the executor takes
block after block from the queue and runs it. They meet in flags and in latched signals,
each of which a task sets or reads in one step of its own: what the other core does may
come in between any two.

A stop empties the queue, raises the hold level, and waits for the executor to say that it
has parked (`quiesce`). Whether the machine is idle is asked in two steps (`check`): the
flag of the executor first, and then the queue.
-/

namespace Galdr.Tasks

open Comms

/-- A block of the queue. The blocks are numbered as they are queued. -/
structure QueuedBlock where
  /-- Its number. -/
  id : ℕ
  /-- It is a jog. -/
  jog : Bool
  deriving DecidableEq, Repr

/-- Where the executor is. -/
inductive ExecutorAt
  /-- It begins a turn, and looks for a reset. -/
  | top
  /-- It reads the hold level. -/
  | boundary
  /-- It has read the level set, and will say that it parks. -/
  | parking
  /-- It is parked, and looks for a reset. -/
  | parkedTop
  /-- It is parked, and reads the level again. -/
  | parkedLevel
  /-- It is parked, and waits. -/
  | parkedWait
  /-- It takes a block from the queue. -/
  | popping
  /-- It has taken a block, and has not said so. -/
  | popped (block : QueuedBlock)
  /-- It runs a block. -/
  | executing (block : QueuedBlock)
  /-- The queue was empty; it waits. -/
  | idle
  deriving DecidableEq, Repr

namespace ExecutorAt

/-- The executor is inside the park that it has acknowledged. -/
def parked : ExecutorAt → Bool
  | parkedTop | parkedLevel | parkedWait => true
  | _ => false

/-- The block that is to be executed or is executing. -/
def block : ExecutorAt → Option QueuedBlock
  | popped b | executing b => some b
  | _ => none

end ExecutorAt

/-- What the consumer waits for. -/
inductive WaitPoint
  /-- The next line. -/
  | line
  /-- Room in the queue. -/
  | planning
  /-- The end of all motion. -/
  | motionIdle
  /-- The end of a dwell. -/
  | dwell
  /-- A cycle start, to end a pause or a tool change. -/
  | pause
  deriving DecidableEq, Repr

/-- The consumer's stops. -/
inductive StopKind
  | programStop
  | jogCancel
  deriving DecidableEq, Repr

/-- Where the consumer is. -/
inductive ConsumerAt
  /-- It waits. -/
  | waiting (point : WaitPoint)
  /-- It handles a line. -/
  | handling
  /-- A stop has emptied the queue. -/
  | flushed (kind : StopKind)
  /-- It has dropped an acknowledgement from before. -/
  | drained (kind : StopKind)
  /-- It has raised the hold level. -/
  | raised (kind : StopKind)
  /-- It waits for the executor to park. -/
  | quiescing (kind : StopKind)
  /-- The executor has parked. -/
  | quiesced (kind : StopKind)
  /-- A reset has set the control state; the planner is still to be rebuilt. -/
  | resetting
  deriving DecidableEq, Repr

/-- Where a check whether the machine is idle is. -/
inductive CheckAt
  /-- It has not begun. -/
  | off
  /-- It has read the flag of the executor clear, and will read the queue. It is overtaken
  while the executor has a block that it took after, or without having said so before. -/
  | sawClear (overtaken : Bool)
  deriving DecidableEq, Repr

/-- A step of the reader that another core can see. -/
inductive Store
  /-- Set the hold level. -/
  | level (on : Bool)
  /-- Wake the executor for the level. -/
  | wake
  /-- Set the flag of a reset. -/
  | resetPending
  /-- Wake the executor for a reset. -/
  | motionReset
  /-- Signal the consumer a reset. -/
  | softReset
  /-- Signal the consumer a jog cancel. -/
  | jogCancel
  /-- Drop the signal of a jog cancel. -/
  | dropJogCancel
  /-- Signal the consumer a program stop. -/
  | programStop
  /-- Drop the lines that were received. -/
  | clearLines
  deriving DecidableEq, Repr

/-- The state of the tasks. -/
structure Machine where
  /-- The control state. -/
  control : ControlState
  /-- The blocks of the planner. -/
  queue : List QueuedBlock
  /-- The number of the next block. -/
  nextBlock : ℕ
  /-- The lines received and not taken, by their numbers. -/
  lines : List ℕ
  /-- The number of the next line. -/
  nextLine : ℕ
  /-- The hold level. -/
  holdRequested : Bool
  /-- The wake of the level. -/
  holdWake : Bool
  /-- The acknowledgement of a park. -/
  motionParked : Bool
  /-- The flag of a reset. -/
  resetPending : Bool
  /-- The wake of a reset. -/
  motionReset : Bool
  /-- The wake of a block. -/
  blockAvailable : Bool
  /-- The flag that the executor runs a block. -/
  executorRunning : Bool
  /-- The consumer's signal of a reset. -/
  softReset : Bool
  /-- The consumer's signal of a jog cancel. -/
  jogCancel : Bool
  /-- The consumer's signal of a program stop. -/
  programStop : Bool
  /-- What the reader has still to do for the last byte. -/
  stores : List Store
  /-- The executor. -/
  executor : ExecutorAt
  /-- The consumer. -/
  consumer : ConsumerAt
  /-- The checks under way. -/
  checks : ℕ → CheckAt
  /-- The blocks that were started. -/
  started : List QueuedBlock
  /-- The lines that were taken. -/
  taken : List ℕ

/-- The wake that a wait of the executor takes. -/
inductive Wake
  | block
  | reset
  | hold
  /-- The ticker of the limit switches. -/
  | tick
  deriving DecidableEq, Repr

/-- A step of one of the tasks. -/
inductive Action
  /-- The executor goes on; at a wait, with the wake. -/
  | execute (wake : Wake)
  /-- The reader takes a byte. -/
  | byte (cmd : RealtimeCommand)
  /-- The reader goes on with a byte. -/
  | store
  /-- A line is received. -/
  | receive
  /-- The consumer takes a line. -/
  | takeLine
  /-- The consumer plans a block of its line. -/
  | plan (jog : Bool)
  /-- The consumer begins to wait, at a line. -/
  | await (point : WaitPoint)
  /-- A wait of the consumer ends, as it should. -/
  | resume
  /-- The consumer finishes its line. -/
  | finish
  /-- A line, or an alarm, changes the control state; a jog does so as it is planned. -/
  | setControl (c : ControlState)
  /-- A line puts the machine to sleep. -/
  | sleep
  /-- The consumer serves its signal of a reset. -/
  | serveReset (wasInCycle homingEnabled : Bool)
  /-- The consumer rebuilds the planner. -/
  | rebuild
  /-- The consumer serves its signal of a program stop. -/
  | serveStop
  /-- The consumer serves its signal of a jog cancel. -/
  | serveCancel
  /-- The consumer goes on with a stop. -/
  | quiesce
  /-- A check goes on. -/
  | check (n : ℕ)
  deriving DecidableEq, Repr

namespace Machine

/-- The tasks at power on. -/
def start (homingEnabled : Bool) : Machine where
  control := .boot homingEnabled
  queue := []
  nextBlock := 0
  lines := []
  nextLine := 0
  holdRequested := false
  holdWake := false
  motionParked := false
  resetPending := false
  motionReset := false
  blockAvailable := false
  executorRunning := false
  softReset := false
  jogCancel := false
  programStop := false
  stores := []
  executor := .top
  consumer := .waiting .line
  checks := fun _ => .off
  started := []
  taken := []

/-! ## The executor -/

/-- A check that has read the flag, after a block was taken. -/
def overtake : CheckAt → CheckAt
  | .off => .off
  | .sawClear _ => .sawClear true

/-- A check that has read the flag, after the block was finished. -/
def catchUp : CheckAt → CheckAt
  | .off => .off
  | .sawClear _ => .sawClear false

/-- One step of the executor. -/
def executorStep (s : Machine) (wake : Wake) : Machine :=
  match s.executor with
  | .top =>
    if s.resetPending then
      { s with resetPending := false, motionReset := false, executor := .boundary }
    else { s with executor := .boundary }
  | .boundary => { s with executor := if s.holdRequested then .parking else .popping }
  | .parking => { s with motionParked := true, executor := .parkedTop }
  | .parkedTop => { s with executor := if s.resetPending then .top else .parkedLevel }
  | .parkedLevel => { s with executor := if s.holdRequested then .parkedWait else .top }
  | .parkedWait =>
    match wake with
    | .hold => if s.holdWake then { s with holdWake := false, executor := .parkedTop } else s
    | .reset => if s.motionReset then { s with motionReset := false, executor := .top } else s
    | .block | .tick => s
  | .popping =>
    match s.queue with
    | [] => { s with executor := .idle }
    | b :: rest =>
      { s with queue := rest, executor := .popped b, checks := fun n => overtake (s.checks n) }
  | .popped b =>
    { s with executorRunning := true, executor := .executing b, started := s.started ++ [b] }
  | .executing _ =>
    { s with executorRunning := false, executor := .top, checks := fun n => catchUp (s.checks n) }
  | .idle =>
    match wake with
    | .block => if s.blockAvailable then { s with blockAvailable := false, executor := .top } else s
    | .reset =>
      if s.motionReset then
        { s with motionReset := false, resetPending := false, executor := .top }
      else s
    | .hold => if s.holdWake then { s with holdWake := false, executor := .top } else s
    | .tick => { s with executor := .top }

/-! ## The reader -/

/-- What the reader does for a byte, in its order. -/
def storesOf (cmd : RealtimeCommand) (c : ControlState) : List Store :=
  match cmd with
  | .feedHold =>
    match c.feedHold with
    | .hold _ => [.level true, .wake]
    | _ => []
  | .cycleStart => if c.resumesOnCycleStart then [.level false, .wake] else []
  | .softReset | .stop =>
    [.clearLines, .dropJogCancel, .level false, .softReset, .resetPending, .wake, .motionReset]
  | .jogCancel => if c = .jog then [.jogCancel] else []
  | .programStop => if c.programStopQuiesces then [.programStop] else []
  | _ => []

/-- The reader takes a byte when it has done with the last one. -/
def dispatch (s : Machine) (cmd : RealtimeCommand) : Machine :=
  if s.stores = [] then { s with control := cmd.control s.control, stores := storesOf cmd s.control }
  else s

/-- One store. -/
def apply (s : Machine) : Store → Machine
  | .level on => { s with holdRequested := on }
  | .wake => { s with holdWake := true }
  | .resetPending => { s with resetPending := true }
  | .motionReset => { s with motionReset := true }
  | .softReset => { s with softReset := true }
  | .jogCancel => { s with jogCancel := true }
  | .dropJogCancel => { s with jogCancel := false }
  | .programStop => { s with programStop := true }
  | .clearLines => { s with lines := [] }

/-- The reader goes on with a byte. -/
def store (s : Machine) : Machine :=
  match s.stores with
  | [] => s
  | store :: rest => { s.apply store with stores := rest }

/-! ## The consumer -/

/-- The waits that a program stop ends. -/
def WaitPoint.racesStop : WaitPoint → Bool
  | .line | .planning | .pause => true
  | .motionIdle | .dwell => false

/-- The blocks that a stop leaves in the queue. -/
def flushQueue (kind : StopKind) (queue : List QueuedBlock) : List QueuedBlock :=
  match kind with
  | .programStop => []
  | .jogCancel => queue.rdropWhile QueuedBlock.jog

/-- The next step of a stop. -/
def quiesce (s : Machine) : Machine :=
  match s.consumer with
  | .flushed kind => { s with motionParked := false, consumer := .drained kind }
  | .drained kind => { s with holdRequested := true, consumer := .raised kind }
  | .raised kind => { s with holdWake := true, consumer := .quiescing kind }
  | .quiescing kind =>
    -- the wait prefers the acknowledgement to a reset, which it leaves for the main loop
    if s.motionParked then { s with motionParked := false, consumer := .quiesced kind }
    else if s.softReset then { s with consumer := .waiting .line }
    else s
  | .quiesced kind =>
    match kind with
    | .programStop =>
      { s with
        holdRequested := false
        holdWake := true
        lines := []
        control := s.control.programStop
        consumer := .waiting .line }
    | .jogCancel =>
      { s with
        holdRequested := false
        holdWake := true
        control := ControlState.jog.cancelJog
        consumer := .waiting .line }
  | _ => s

/-- A check goes on: it reads the flag, and then the queue. -/
def check (s : Machine) (n : ℕ) : Machine :=
  match s.checks n with
  | .off =>
    if s.executorRunning then s
    else { s with checks := Function.update s.checks n (.sawClear s.executor.block.isSome) }
  | .sawClear _ => { s with checks := Function.update s.checks n .off }

/-- One step of one of the tasks; a task that is not at the point does nothing. The main wait
of the consumer prefers a line to a reset, a reset to a jog cancel, and that to a stop. -/
def step (s : Machine) (action : Action) : Machine :=
  match action with
  | .execute wake => s.executorStep wake
  | .byte cmd => s.dispatch cmd
  | .store => s.store
  | .receive => { s with lines := s.lines ++ [s.nextLine], nextLine := s.nextLine + 1 }
  | .takeLine =>
    match s.consumer, s.lines with
    | .waiting .line, line :: rest =>
      { s with lines := rest, consumer := .handling, taken := s.taken ++ [line] }
    | _, _ => s
  | .plan jog =>
    -- a jog is accepted during a jog, and from rest; a line of a program not during a jog
    if s.consumer = .handling ∧
        (jog = true → s.control = .jog ∨ s.control = .normal ∧ s.queue = []) ∧
        (jog = false → s.control ≠ .jog) then
      { s with
        queue := s.queue ++ [⟨s.nextBlock, jog⟩]
        nextBlock := s.nextBlock + 1
        blockAvailable := true
        control := if jog then .jog else s.control }
    else s
  | .await point => if s.consumer = .handling then { s with consumer := .waiting point } else s
  | .resume =>
    match s.consumer with
    | .waiting .line => s
    | .waiting _ => { s with consumer := .handling }
    | _ => s
  | .finish => if s.consumer = .handling then { s with consumer := .waiting .line } else s
  | .setControl c => if c = .jog then s else { s with control := c }
  | .sleep =>
    if s.consumer = .handling ∧ s.control = .normal then
      { s with control := .sleep, holdRequested := true, holdWake := true }
    else s
  | .serveReset wasInCycle homingEnabled =>
    match s.consumer with
    | .waiting point =>
      if s.softReset = true ∧ (point = .line → s.lines = []) then
        { s with
          softReset := false
          control := s.control.softReset wasInCycle homingEnabled
          consumer := .resetting }
      else s
    | _ => s
  | .rebuild =>
    if s.consumer = .resetting then { s with queue := [], consumer := .waiting .line } else s
  | .serveStop =>
    match s.consumer with
    | .waiting point =>
      if WaitPoint.racesStop point = true ∧ s.programStop = true ∧ s.softReset = false ∧
          (point = .line → s.lines = [] ∧ s.jogCancel = false) then
        if s.control.programStopQuiesces then
          { s with
            programStop := false
            queue := flushQueue .programStop s.queue
            consumer := .flushed .programStop }
        else { s with programStop := false, consumer := .waiting .line }
      else s
    | _ => s
  | .serveCancel =>
    if s.consumer = .waiting .line ∧ s.jogCancel = true ∧ s.lines = [] ∧ s.softReset = false then
      if s.control = .jog then
        { s with
          jogCancel := false
          queue := flushQueue .jogCancel s.queue
          consumer := .flushed .jogCancel }
      else { s with jogCancel := false }
    else s
  | .quiesce => s.quiesce
  | .check n => s.check n

end Machine

end Galdr.Tasks
