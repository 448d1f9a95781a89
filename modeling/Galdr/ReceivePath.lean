import Galdr.LineFramer
import Galdr.Realtime
import Galdr.Runs

/-!
# The receive path

Three tasks take a byte from the wire to the planner. The reader dispatches the
real-time bytes and puts the others into a pipe; the assembler frames the bytes of
the pipe into lines and hands them to a queue; the consumer takes the lines in
order. A reset empties the pipe and the queue and signals the assembler and the
consumer, each of which sees its signal only when it next waits: the assembler
prefers a byte to its signal, the consumer a line.

Every byte is marked with how many resets had been read before it. A line that is
handled after a reset was applied holds bytes from after it only, and what a reset
discards was received before it, in every run that leaves the assembler the time to
see its signal (`isolated_run`); a byte that comes too soon joins a line from before
the reset (`mixedRun`).
-/

namespace Galdr.Comms

open Runs

/-- A byte, and how many resets had been read before it. -/
structure Received where
  /-- The byte. -/
  byte : UInt8
  /-- The resets read before it. -/
  epoch : ℕ
  deriving DecidableEq

/-- A line, with the byte that ended it. -/
structure Framed where
  /-- Its bytes. -/
  content : List Received
  /-- Its terminator. -/
  terminator : Received
  deriving DecidableEq

/-- Every byte of a line. -/
def Framed.symbols (line : Framed) : List Received := line.content ++ [line.terminator]

/-- What the consumer is at. -/
inductive ConsumerPhase
  /-- It waits for a line or a signal. -/
  | waiting
  /-- It handles a line. -/
  | handling
  /-- It waits for the executor to park, to finish a program stop. -/
  | stopping
  deriving DecidableEq, Repr

/-- How many bytes the pipe holds. -/
def rxPipeCapacity : ℕ := 1024

/-- How many lines the queue holds. -/
def lineQueueDepth : ℕ := 4

/-- The state of the receive path. The resets are numbered as they are read. -/
structure Receiver where
  /-- The control state. -/
  control : ControlState
  /-- The bytes read and not framed. -/
  pipe : List Received
  /-- The framer of the assembler. -/
  reader : LineReader Received
  /-- The line the assembler waits to hand over. -/
  sending : Option Framed
  /-- The lines framed and not taken. -/
  queue : List Framed
  /-- The signal of the assembler. -/
  lineReset : Bool
  /-- The signal of the consumer. -/
  softReset : Bool
  /-- The stop signal of the consumer. -/
  programStop : Bool
  /-- What the consumer is at. -/
  phase : ConsumerPhase
  /-- The resets read. -/
  epoch : ℕ
  /-- The reset that signalled the assembler last. -/
  lineEpoch : ℕ
  /-- The last soft reset read. -/
  softEpoch : ℕ
  /-- The last program stop read. -/
  stopEpoch : ℕ
  /-- The last reset applied. -/
  applied : ℕ
  /-- The lines taken, each with the last reset applied before. -/
  handled : List (Framed × ℕ)
  /-- The bytes discarded, each with the reset that discarded it. -/
  discarded : List (Received × ℕ)
  deriving DecidableEq

/-- One step of one of the tasks. -/
inductive Action
  /-- The reader takes a byte off the wire. -/
  | read (byte : UInt8)
  /-- The assembler runs to its next wait. -/
  | assemble
  /-- The consumer takes what its wait brings. -/
  | consume (wasInCycle homingEnabled : Bool)
  /-- The consumer, at a line, answers a query that has come in during a pause. -/
  | answerQuery
  /-- A wait of the consumer, at a line, ends with a soft reset. -/
  | abortLine (wasInCycle homingEnabled : Bool)
  /-- A wait of the consumer, at a line, ends with a program stop. -/
  | stopLine
  /-- The consumer finishes its line. -/
  | finish
  /-- The executor has parked, and the consumer finishes the stop. -/
  | parked
  /-- A soft reset comes before the executor has parked. -/
  | resetPreempts
  /-- A command or an alarm changes the control state. -/
  | setControl (c : ControlState)
  deriving DecidableEq

namespace Receiver

/-- Nothing received yet. -/
def start (homingEnabled : Bool) : Receiver where
  control := .boot homingEnabled
  pipe := []
  reader := .new
  sending := none
  queue := []
  lineReset := false
  softReset := false
  programStop := false
  phase := .waiting
  epoch := 0
  lineEpoch := 0
  softEpoch := 0
  stopEpoch := 0
  applied := 0
  handled := []
  discarded := []

/-- The bytes of the pipe and of the queue. -/
def buffered (s : Receiver) : List Received := s.pipe ++ s.queue.flatMap Framed.symbols

/-- Empty the pipe and the queue and signal the assembler, for the reset `n`. -/
def flush (s : Receiver) (n : ℕ) : Receiver :=
  { s with
    pipe := []
    queue := []
    lineReset := true
    lineEpoch := n
    discarded := s.discarded ++ s.buffered.map fun b => (b, n) }

/-- A soft reset is read: the reader flushes, and signals the consumer. -/
def handleSoftReset (s : Receiver) : Receiver :=
  { s.flush (s.epoch + 1) with
    softReset := true
    epoch := s.epoch + 1
    softEpoch := s.epoch + 1 }

/-- The reader dispatches a command. -/
def dispatchRealtime (s : Receiver) (cmd : RealtimeCommand) : Receiver :=
  match cmd with
  | .softReset | .stop => s.handleSoftReset
  | .programStop =>
    if s.control.programStopQuiesces then
      { s with programStop := true, epoch := s.epoch + 1, stopEpoch := s.epoch + 1 }
    else s
  | cmd => { s with control := cmd.control s.control }

/-- The reader takes a byte; where the pipe is full, an ordinary one is dropped. -/
def readByte (s : Receiver) (byte : UInt8) : Receiver :=
  match classifyRealtime byte with
  | some cmd => s.dispatchRealtime cmd
  | none =>
    if s.pipe.length < rxPipeCapacity then { s with pipe := s.pipe ++ [⟨byte, s.epoch⟩] } else s

/-- The assembler serves its signal: the line so far is dropped. -/
def serveReset (s : Receiver) : Receiver :=
  { s with
    reader := s.reader.reset
    lineReset := false
    discarded := s.discarded ++ s.reader.partialLine.map fun b => (b, s.lineEpoch) }

/-- The assembler hands over its line if there is room, or frames a byte, or where
there is none serves its signal. -/
def runAssembler (s : Receiver) : Receiver :=
  match s.sending with
  | some line =>
    if s.queue.length < lineQueueDepth then
      { s with queue := s.queue ++ [line], sending := none }
    else s
  | none =>
    match s.pipe with
    | b :: rest =>
      let fed := s.reader.feed Received.byte b
      { s with
        pipe := rest
        reader := fed.1
        sending :=
          match fed.2 with
          | .line content => some ⟨content, b⟩
          | _ => none }
    | [] => if s.lineReset then s.serveReset else s

/-- The consumer takes the next line. -/
def take (s : Receiver) (line : Framed) (rest : List Framed) : Receiver :=
  { s with queue := rest, phase := .handling, handled := s.handled ++ [(line, s.applied)] }

/-- The consumer applies a soft reset. -/
def applySoftReset (s : Receiver) (wasInCycle homingEnabled : Bool) : Receiver :=
  { s with
    softReset := false
    control := s.control.softReset wasInCycle homingEnabled
    phase := .waiting
    applied := max s.applied s.softEpoch }

/-- The consumer begins a program stop, if there is something to stop. -/
def beginStop (s : Receiver) : Receiver :=
  { s with
    programStop := false
    phase := if s.control.programStopQuiesces then .stopping else .waiting }

/-- The executor has parked: the consumer drops what was received. -/
def finishStop (s : Receiver) : Receiver :=
  { s.flush s.stopEpoch with
    control := s.control.programStop
    phase := .waiting
    applied := max s.applied s.stopEpoch }

/-- One step; a task that is not at the point does nothing. -/
def step (s : Receiver) (action : Action) : Receiver :=
  match action with
  | .read byte => s.readByte byte
  | .assemble => s.runAssembler
  | .consume wasInCycle homingEnabled =>
    if s.phase = .waiting then
      match s.queue with
      | line :: rest => s.take line rest
      | [] =>
        if s.softReset then s.applySoftReset wasInCycle homingEnabled
        else if s.programStop then s.beginStop
        else s
    else s
  | .answerQuery =>
    if s.phase = .handling then
      match s.queue with
      | line :: rest => s.take line rest
      | [] => s
    else s
  | .abortLine wasInCycle homingEnabled =>
    if s.phase = .handling ∧ s.softReset = true then s.applySoftReset wasInCycle homingEnabled
    else s
  | .stopLine =>
    if s.phase = .handling ∧ s.programStop = true then s.beginStop else s
  | .finish => if s.phase = .handling then { s with phase := .waiting } else s
  | .parked => if s.phase = .stopping then s.finishStop else s
  | .resetPreempts =>
    if s.phase = .stopping ∧ s.softReset = true then { s with phase := .waiting } else s
  | .setControl c => { s with control := c }

/-- **The tasks keep apart**: an ordinary byte is read only when no reset before it
waits for the assembler, and no stop for its end; and a flush finds the assembler not
waiting to hand over a line. -/
def KeepsApart (s : Receiver) (action : Action) : Prop :=
  match action with
  | .read byte =>
    match classifyRealtime byte with
    | none => s.lineReset = false ∧ s.programStop = false ∧ s.phase ≠ .stopping
    | some cmd => cmd.resets = true → s.sending = none
  | .parked => s.phase = .stopping → s.sending = none
  | _ => True

/-! ## What the tasks hold -/

/-- Every byte received and neither handled nor discarded. -/
def held (s : Receiver) : List Received :=
  s.buffered ++ (s.reader.partialLine ++ (s.sending.map Framed.symbols).getD [])

/-- **What the receive path keeps.** -/
structure Kept (s : Receiver) : Prop where
  /-- While its signal waits for the assembler, it holds only a line from before. -/
  signalled : s.lineReset = true → s.pipe = [] ∧ s.queue = [] ∧ s.sending = none
    ∧ ∀ b ∈ s.reader.partialLine, b.epoch < s.lineEpoch
  /-- Otherwise what is held was received after every reset that was applied, or that
  waits for the consumer only. -/
  floor : s.lineReset = false → ∀ b ∈ s.held,
    s.applied ≤ b.epoch ∧ (s.softReset = true → s.softEpoch ≤ b.epoch)
  /-- While a stop is not finished, what is held was received before it. -/
  stopped : s.programStop = true ∨ s.phase = .stopping → ∀ b ∈ s.held, b.epoch < s.stopEpoch
  /-- What is held was received before the next reset. -/
  known : ∀ b ∈ s.held, b.epoch ≤ s.epoch
  /-- The resets applied were read. -/
  appliedLe : s.applied ≤ s.epoch
  /-- The last soft reset was read. -/
  softLe : s.softEpoch ≤ s.epoch
  /-- The last program stop was read. -/
  stopLe : s.stopEpoch ≤ s.epoch
  /-- A line taken was received after every reset applied before. -/
  clean : ∀ entry ∈ s.handled, ∀ b ∈ entry.1.symbols, entry.2 ≤ b.epoch
  /-- A byte discarded was received before the reset that discarded it. -/
  before : ∀ entry ∈ s.discarded, entry.1.epoch < entry.2

variable {s : Receiver}

theorem mem_buffered {b : Received} :
    b ∈ s.buffered ↔ b ∈ s.pipe ∨ ∃ line ∈ s.queue, b ∈ line.symbols := by
  unfold buffered
  rw [List.mem_append, List.mem_flatMap]

theorem mem_held {b : Received} :
    b ∈ s.held ↔ b ∈ s.buffered ∨ b ∈ s.reader.partialLine
      ∨ ∃ line, s.sending = some line ∧ b ∈ line.symbols := by
  unfold held
  rw [List.mem_append, List.mem_append]
  cases s.sending with
  | none => simp
  | some line => simp

theorem kept_start (homingEnabled : Bool) : (start homingEnabled).Kept where
  signalled h := absurd h (by simp [start])
  floor _ b hb := absurd hb (by simp [start, held, buffered, LineReader.new,
    LineReader.partialLine])
  stopped h := absurd h (by simp [start])
  known b hb := absurd hb (by simp [start, held, buffered, LineReader.new,
    LineReader.partialLine])
  appliedLe := le_rfl
  softLe := le_rfl
  stopLe := le_rfl
  clean entry h := absurd h (by simp [start])
  before entry h := absurd h (by simp [start])

/-! ## The reader -/

/-- What is left after a flush is the line so far. -/
theorem mem_held_flush (n : ℕ) {b : Received} (hsending : s.sending = none)
    (hb : b ∈ (s.flush n).held) : b ∈ s.reader.partialLine := by
  rcases mem_held.1 hb with hb | hb | ⟨line, hline, -⟩
  · exact absurd hb (by simp [buffered, flush])
  · exact hb
  · exact absurd (hsending.symm.trans hline) (by simp)

/-- What a flush discards was received before its reset. -/
theorem before_flush (h : ∀ entry ∈ s.discarded, entry.1.epoch < entry.2) {n : ℕ}
    (hbefore : ∀ b ∈ s.held, b.epoch < n) :
    ∀ entry ∈ (s.flush n).discarded, entry.1.epoch < entry.2 := by
  intro entry hentry
  rcases List.mem_append.1 (show entry ∈ s.discarded ++ s.buffered.map _ from hentry) with
    hentry | hentry
  · exact h entry hentry
  · obtain ⟨b, hb, rfl⟩ := List.mem_map.1 hentry
    exact hbefore b (mem_held.2 (.inl hb))

/-- **A soft reset read keeps what is kept**, when the assembler hands over no line. -/
theorem Kept.handleSoftReset (h : s.Kept) (hsending : s.sending = none) :
    s.handleSoftReset.Kept where
  signalled _ := by
    refine ⟨rfl, rfl, hsending, fun b hb => ?_⟩
    exact Nat.lt_succ_of_le (h.known b (mem_held.2 (.inr (.inl hb))))
  floor hlow := absurd hlow (by simp [Receiver.handleSoftReset, flush])
  stopped hstop b hb :=
    h.stopped hstop b (mem_held.2 (.inr (.inl (mem_held_flush (s.epoch + 1) hsending hb))))
  known b hb :=
    Nat.le_succ_of_le (h.known b (mem_held.2 (.inr (.inl (mem_held_flush (s.epoch + 1) hsending hb)))))
  appliedLe := Nat.le_succ_of_le h.appliedLe
  softLe := le_rfl
  stopLe := Nat.le_succ_of_le h.stopLe
  clean := h.clean
  before := before_flush h.before fun b hb => Nat.lt_succ_of_le (h.known b hb)

/-- A step that changes the control state only. -/
theorem Kept.control (h : s.Kept) (c : ControlState) :
    ({ s with control := c } : Receiver).Kept :=
  ⟨h.signalled, h.floor, h.stopped, h.known, h.appliedLe, h.softLe, h.stopLe, h.clean,
    h.before⟩

/-- A program stop read: what is held was received before it. -/
theorem Kept.programStop (h : s.Kept) :
    ({ s with programStop := true, epoch := s.epoch + 1, stopEpoch := s.epoch + 1 } :
      Receiver).Kept where
  signalled := h.signalled
  floor := h.floor
  stopped _ b hb := Nat.lt_succ_of_le (h.known b hb)
  known b hb := Nat.le_succ_of_le (h.known b hb)
  appliedLe := Nat.le_succ_of_le h.appliedLe
  softLe := Nat.le_succ_of_le h.softLe
  stopLe := le_rfl
  clean := h.clean
  before := h.before

/-- An ordinary byte joins what is held. -/
theorem Kept.ordinary (h : s.Kept) (byte : UInt8) (hreset : s.lineReset = false)
    (hstop : s.programStop = false) (hphase : s.phase ≠ .stopping) :
    ({ s with pipe := s.pipe ++ [⟨byte, s.epoch⟩] } : Receiver).Kept := by
  have hmem : ∀ b ∈ ({ s with pipe := s.pipe ++ [⟨byte, s.epoch⟩] } : Receiver).held,
      b ∈ s.held ∨ b.epoch = s.epoch := by
    intro b hb
    rcases mem_held.1 hb with hb | hb
    · rcases mem_buffered.1 hb with hb | hb
      · rcases List.mem_append.1 (show b ∈ s.pipe ++ [⟨byte, s.epoch⟩] from hb) with hb | hb
        · exact .inl (mem_held.2 (.inl (mem_buffered.2 (.inl hb))))
        · rw [List.mem_singleton.1 hb]
          exact .inr rfl
      · exact .inl (mem_held.2 (.inl (mem_buffered.2 (.inr hb))))
    · exact .inl (mem_held.2 (.inr hb))
  refine ⟨fun hr => absurd (hreset.symm.trans hr) Bool.false_ne_true, fun _ b hb => ?_,
    fun hs => ?_, fun b hb => ?_, h.appliedLe, h.softLe, h.stopLe, h.clean, h.before⟩
  · rcases hmem b hb with hb | hb
    · exact h.floor hreset b hb
    · rw [hb]
      exact ⟨h.appliedLe, fun _ => h.softLe⟩
  · rcases hs with hs | hs
    · exact absurd (hstop.symm.trans hs) Bool.false_ne_true
    · exact absurd hs hphase
  · rcases hmem b hb with hb | hb
    · exact h.known b hb
    · exact le_of_eq hb

theorem Kept.readByte (h : s.Kept) (byte : UInt8) (hapart : s.KeepsApart (.read byte)) :
    (s.readByte byte).Kept := by
  unfold Receiver.readByte
  unfold KeepsApart at hapart
  cases hclass : classifyRealtime byte with
  | none =>
    simp only [hclass] at hapart
    obtain ⟨hreset, hstop, hphase⟩ := hapart
    by_cases hroom : s.pipe.length < rxPipeCapacity
    · simp only [if_pos hroom]
      exact h.ordinary byte hreset hstop hphase
    · simp only [if_neg hroom]
      exact h
  | some cmd =>
    simp only [hclass] at hapart
    show (s.dispatchRealtime cmd).Kept
    cases cmd with
    | softReset => exact h.handleSoftReset (hapart rfl)
    | stop => exact h.handleSoftReset (hapart rfl)
    | programStop =>
      unfold dispatchRealtime
      by_cases hquiesces : s.control.programStopQuiesces = true
      · simp only [hquiesces, if_true]
        exact h.programStop
      · simp only [hquiesces, if_false, Bool.false_eq_true]
        exact h
    | _ => exact h.control _

/-! ## The assembler -/

/-- A step that holds no more than before, and changes no signal and no mark. -/
theorem Kept.same (h : s.Kept) {s' : Receiver} (hheld : ∀ b ∈ s'.held, b ∈ s.held)
    (hsignalled : s'.lineReset = true → s'.pipe = [] ∧ s'.queue = [] ∧ s'.sending = none
      ∧ ∀ b ∈ s'.reader.partialLine, b.epoch < s'.lineEpoch)
    (hreset : s'.lineReset = s.lineReset) (hsoft : s'.softReset = s.softReset)
    (hstop : s'.programStop = true ∨ s'.phase = .stopping →
      s.programStop = true ∨ s.phase = .stopping)
    (hmarks : s'.epoch = s.epoch ∧ s'.softEpoch = s.softEpoch ∧ s'.stopEpoch = s.stopEpoch
      ∧ s'.applied = s.applied)
    (hclean : ∀ entry ∈ s'.handled, ∀ b ∈ entry.1.symbols, entry.2 ≤ b.epoch)
    (hdiscarded : s'.discarded = s.discarded) : s'.Kept := by
  obtain ⟨hepoch, hsoftEpoch, hstopEpoch, happlied⟩ := hmarks
  refine ⟨hsignalled, fun hr b hb => ?_, fun hs b hb => ?_, fun b hb => ?_, ?_, ?_, ?_,
    hclean, ?_⟩
  · rw [happlied, hsoft, hsoftEpoch]
    exact h.floor (hreset ▸ hr) b (hheld b hb)
  · rw [hstopEpoch]
    exact h.stopped (hstop hs) b (hheld b hb)
  · rw [hepoch]
    exact h.known b (hheld b hb)
  · rw [happlied, hepoch]
    exact h.appliedLe
  · rw [hsoftEpoch, hepoch]
    exact h.softLe
  · rw [hstopEpoch, hepoch]
    exact h.stopLe
  · rw [hdiscarded]
    exact h.before

/-- The signal served: nothing is held any more. -/
theorem Kept.serveReset (h : s.Kept) (hreset : s.lineReset = true) : s.serveReset.Kept := by
  obtain ⟨hpipe, hqueue, hsending, hold⟩ := h.signalled hreset
  have hnone : ∀ b, b ∉ s.serveReset.held := by
    intro b hb
    rcases mem_held.1 hb with hb | hb | ⟨line, hline, -⟩
    · rcases mem_buffered.1 hb with hb | ⟨line, hline, -⟩
      · exact absurd (show b ∈ s.pipe from hb) (by simp [hpipe])
      · exact absurd (show line ∈ s.queue from hline) (by simp [hqueue])
    · exact absurd hb (by
        simp [Receiver.serveReset, LineReader.reset, LineReader.new, LineReader.partialLine])
    · exact absurd (hsending.symm.trans hline) (by simp)
  refine ⟨fun hr => absurd hr (by simp [Receiver.serveReset]),
    fun _ b hb => absurd hb (hnone b), fun _ b hb => absurd hb (hnone b),
    fun b hb => absurd hb (hnone b), h.appliedLe, h.softLe, h.stopLe, h.clean,
    fun entry hentry => ?_⟩
  rcases List.mem_append.1 (show entry ∈ s.discarded ++ _ from hentry) with hentry | hentry
  · exact h.before entry hentry
  · obtain ⟨b, hb, rfl⟩ := List.mem_map.1 hentry
    exact hold b hb

/-- **The assembler keeps what is kept.** -/
theorem Kept.runAssembler (h : s.Kept) : s.runAssembler.Kept := by
  unfold Receiver.runAssembler
  cases hsending : s.sending with
  | some line =>
    have hreset : s.lineReset = false := by
      by_contra hr
      have hnone := (h.signalled (by simpa using hr)).2.2.1
      exact absurd (hsending.symm.trans hnone) (by simp)
    by_cases hroom : s.queue.length < lineQueueDepth
    · simp only [if_pos hroom]
      refine h.same (fun b hb => ?_) (fun hr => absurd (hreset.symm.trans hr) Bool.false_ne_true)
        rfl rfl id ⟨rfl, rfl, rfl, rfl⟩ h.clean rfl
      rcases mem_held.1 hb with hb | hb | ⟨line', hline', -⟩
      · rcases mem_buffered.1 hb with hb | ⟨line', hline', hb⟩
        · exact mem_held.2 (.inl (mem_buffered.2 (.inl hb)))
        · rcases List.mem_append.1 (show line' ∈ s.queue ++ [line] from hline') with
            hline' | hline'
          · exact mem_held.2 (.inl (mem_buffered.2 (.inr ⟨line', hline', hb⟩)))
          · rw [List.mem_singleton.1 hline'] at hb
            exact mem_held.2 (.inr (.inr ⟨line, hsending, hb⟩))
      · exact mem_held.2 (.inr (.inl hb))
      · exact absurd hline' (by simp)
    · simp only [if_neg hroom]
      exact h
  | none =>
    cases hpipe : s.pipe with
    | cons b rest =>
      have hreset : s.lineReset = false := by
        by_contra hr
        have hnil := (h.signalled (by simpa using hr)).1
        exact absurd (hpipe.symm.trans hnil) (by simp)
      have hb : b ∈ s.held := mem_held.2 (.inl (mem_buffered.2 (.inl (by simp [hpipe]))))
      have hpart : ∀ c ∈ s.reader.partialLine, c ∈ s.held :=
        fun c hc => mem_held.2 (.inr (.inl hc))
      refine h.same (fun c hc => ?_) (fun hr => absurd (hreset.symm.trans hr) Bool.false_ne_true)
        rfl rfl id ⟨rfl, rfl, rfl, rfl⟩ h.clean rfl
      rcases mem_held.1 hc with hc | hc | ⟨line, hline, hc⟩
      · rcases mem_buffered.1 hc with hc | hc
        · refine mem_held.2 (.inl (mem_buffered.2 (.inl ?_)))
          rw [hpipe]
          exact List.mem_cons_of_mem _ hc
        · exact mem_held.2 (.inl (mem_buffered.2 (.inr hc)))
      · rcases LineReader.mem_feed.1 hc with hc | rfl
        · exact hpart c hc
        · exact hb
      · -- the line completed is made of the line so far and of its terminator
        cases hfed : (s.reader.feed Received.byte b).2 with
        | pending => exact absurd hline (by simp [hfed])
        | overflow => exact absurd hline (by simp [hfed])
        | line content =>
          obtain rfl : (⟨content, b⟩ : Framed) = line := by simpa [hfed] using hline
          rcases List.mem_append.1 (show c ∈ content ++ [b] from hc) with hc | hc
          · exact hpart c (LineReader.mem_feed.2 content hfed hc)
          · rw [List.mem_singleton.1 hc]
            exact hb
    | nil =>
      by_cases hreset : s.lineReset = true
      · simp only [hreset, if_true]
        exact h.serveReset hreset
      · simp only [hreset, if_false, Bool.false_eq_true]
        exact h

/-! ## The consumer -/

/-- A line taken was received after every reset applied. -/
theorem Kept.take (h : s.Kept) {line : Framed} {rest : List Framed}
    (hqueue : s.queue = line :: rest) : (s.take line rest).Kept := by
  have hreset : s.lineReset = false := by
    by_contra hr
    have hnil := (h.signalled (by simpa using hr)).2.1
    exact absurd (hqueue.symm.trans hnil) (by simp)
  have hline : ∀ b ∈ line.symbols, b ∈ s.held := fun b hb =>
    mem_held.2 (.inl (mem_buffered.2 (.inr ⟨line, by simp [hqueue], hb⟩)))
  refine h.same (fun b hb => ?_) (fun hr => absurd (hreset.symm.trans hr) Bool.false_ne_true)
    rfl rfl (fun hs => ?_) ⟨rfl, rfl, rfl, rfl⟩ (fun entry hentry => ?_) rfl
  · rcases mem_held.1 hb with hb | hb
    · rcases mem_buffered.1 hb with hb | ⟨line', hline', hb⟩
      · exact mem_held.2 (.inl (mem_buffered.2 (.inl hb)))
      · refine mem_held.2 (.inl (mem_buffered.2 (.inr ⟨line', ?_, hb⟩)))
        rw [hqueue]
        exact List.mem_cons_of_mem _ hline'
    · exact mem_held.2 (.inr hb)
  · rcases hs with hs | hs
    · exact .inl hs
    · exact absurd hs (by simp [Receiver.take])
  · rcases List.mem_append.1 (show entry ∈ s.handled ++ [(line, s.applied)] from hentry) with
      hentry | hentry
    · exact h.clean entry hentry
    · rw [List.mem_singleton.1 hentry]
      exact fun b hb => (h.floor hreset b (hline b hb)).1

/-- A soft reset is applied after its flush. -/
theorem Kept.applySoftReset (h : s.Kept) (hsoft : s.softReset = true)
    (wasInCycle homingEnabled : Bool) : (s.applySoftReset wasInCycle homingEnabled).Kept where
  signalled := h.signalled
  floor hr b hb := by
    obtain ⟨happlied, hfloor⟩ := h.floor hr b hb
    exact ⟨max_le happlied (hfloor hsoft), fun hs => absurd hs (by simp [Receiver.applySoftReset])⟩
  stopped hs b hb := by
    refine h.stopped ?_ b hb
    rcases hs with hs | hs
    · exact .inl hs
    · exact absurd hs (by simp [Receiver.applySoftReset])
  known := h.known
  appliedLe := max_le h.appliedLe h.softLe
  softLe := h.softLe
  stopLe := h.stopLe
  clean := h.clean
  before := h.before

theorem Kept.beginStop (h : s.Kept) (hstop : s.programStop = true) : s.beginStop.Kept :=
  h.same (fun _ hb => hb) h.signalled rfl rfl (fun _ => .inl hstop) ⟨rfl, rfl, rfl, rfl⟩
    h.clean rfl

/-- **The end of a stop keeps what is kept**, when the assembler hands over no line:
what it discards was received before the stop. -/
theorem Kept.finishStop (h : s.Kept) (hphase : s.phase = .stopping)
    (hsending : s.sending = none) : s.finishStop.Kept := by
  have hbefore := h.stopped (.inr hphase)
  have hpart : ∀ b ∈ s.finishStop.held, b ∈ s.held := fun b hb =>
    mem_held.2 (.inr (.inl (mem_held_flush s.stopEpoch hsending hb)))
  refine ⟨fun _ => ⟨rfl, rfl, hsending, fun b hb => ?_⟩,
    fun hr => absurd hr (by simp [Receiver.finishStop, flush]),
    fun _ b hb => hbefore b (hpart b hb), fun b hb => h.known b (hpart b hb),
    max_le h.appliedLe h.stopLe, h.softLe, h.stopLe, h.clean,
    before_flush h.before hbefore⟩
  exact hbefore b (mem_held.2 (.inr (.inl hb)))

/-- **Every step of tasks that keep apart keeps what is kept.** -/
theorem Kept.step (h : s.Kept) (action : Action) (hapart : s.KeepsApart action) :
    (s.step action).Kept := by
  have hphase : ∀ p : ConsumerPhase, p ≠ .stopping →
      ({ s with phase := p } : Receiver).Kept := by
    intro p hp
    refine h.same (fun _ hb => hb) h.signalled rfl rfl (fun hs => ?_) ⟨rfl, rfl, rfl, rfl⟩
      h.clean rfl
    exact hs.imp_right fun hs => absurd hs hp
  cases action with
  | read byte => exact h.readByte byte hapart
  | assemble => exact h.runAssembler
  | setControl c => exact h.control c
  | consume wasInCycle homingEnabled =>
    unfold Receiver.step
    by_cases hwaiting : s.phase = .waiting
    · simp only [if_pos hwaiting]
      cases hqueue : s.queue with
      | cons line rest => exact h.take hqueue
      | nil =>
        by_cases hsoft : s.softReset = true
        · simp only [hsoft, if_true]
          exact h.applySoftReset hsoft wasInCycle homingEnabled
        · by_cases hstop : s.programStop = true
          · simp only [hsoft, hstop, if_true, if_false, Bool.false_eq_true]
            exact h.beginStop hstop
          · simp only [hsoft, hstop, if_false, Bool.false_eq_true]
            exact h
    · simp only [if_neg hwaiting]
      exact h
  | answerQuery =>
    unfold Receiver.step
    by_cases hhandling : s.phase = .handling
    · simp only [if_pos hhandling]
      cases hqueue : s.queue with
      | cons line rest => exact h.take hqueue
      | nil => exact h
    · simp only [if_neg hhandling]
      exact h
  | abortLine wasInCycle homingEnabled =>
    unfold Receiver.step
    by_cases hsoft : s.phase = .handling ∧ s.softReset = true
    · simp only [if_pos hsoft]
      exact h.applySoftReset hsoft.2 wasInCycle homingEnabled
    · simp only [if_neg hsoft]
      exact h
  | stopLine =>
    unfold Receiver.step
    by_cases hstop : s.phase = .handling ∧ s.programStop = true
    · simp only [if_pos hstop]
      exact h.beginStop hstop.2
    · simp only [if_neg hstop]
      exact h
  | finish =>
    show (if s.phase = .handling then _ else s : Receiver).Kept
    split
    · exact hphase .waiting (by decide)
    · exact h
  | parked =>
    unfold Receiver.step
    by_cases hstopping : s.phase = .stopping
    · simp only [if_pos hstopping]
      exact h.finishStop hstopping (hapart hstopping)
    · simp only [if_neg hstopping]
      exact h
  | resetPreempts =>
    show (if s.phase = .stopping ∧ s.softReset = true then _ else s : Receiver).Kept
    split
    · exact hphase .waiting (by decide)
    · exact h

/-! ## Runs -/

/-- **A reset keeps apart what comes before it and after it**: a line handled after a
reset was applied holds no byte from before it, and no reset discards a byte from
after it. -/
def Isolated (s : Receiver) : Prop :=
  (∀ entry ∈ s.handled, ∀ b ∈ entry.1.symbols, entry.2 ≤ b.epoch)
    ∧ ∀ entry ∈ s.discarded, entry.1.epoch < entry.2

instance (s : Receiver) : Decidable s.Isolated :=
  inferInstanceAs (Decidable (_ ∧ _))

/-- **Resets isolate** in every run whose tasks keep apart. -/
theorem isolated_run (homingEnabled : Bool) (actions : List Action)
    (hapart : Allowed step KeepsApart (start homingEnabled) actions) :
    (actions.foldl step (start homingEnabled)).Isolated := by
  have hkeep : ∀ (s : Receiver) (a : Action), s.Kept → s.KeepsApart a → (s.step a).Kept :=
    fun _ a hs ha => hs.step a ha
  have h := hapart.invariant hkeep (kept_start homingEnabled)
  exact ⟨h.clean, h.before⟩

/-- A line, a reset that is served, and another line. -/
def servedRun : List Action :=
  [.read 0x47, .assemble, .read 0x18, .assemble, .consume false false, .read 0x47, .read 10,
    .assemble, .assemble, .assemble, .consume false false]

theorem isolated_servedRun : (servedRun.foldl step (start false)).Isolated := by
  refine isolated_run false servedRun ?_
  exact ⟨⟨rfl, rfl, by decide⟩, trivial, fun _ => rfl, trivial, trivial, ⟨rfl, rfl, by decide⟩,
    ⟨rfl, rfl, by decide⟩, trivial, trivial, trivial, trivial, trivial⟩

/-- A byte is read before the assembler has seen the signal of the reset before it. -/
def mixedRun : List Action :=
  [.read 0x47, .assemble, .read 0x18, .consume false false, .read 0x31, .read 10,
    .assemble, .assemble, .assemble, .consume false false]

/-- The same, and what follows the reset is lost. -/
def lostRun : List Action :=
  [.read 0x18, .read 0x47, .assemble, .assemble]

/-- The assembler waits to hand over a line when a reset empties the queue. -/
def blockedRun : List Action :=
  [.read 10, .assemble, .assemble, .consume false false]
    ++ (List.replicate 5 [.read 10, .assemble, .assemble]).flatten
    ++ [.read 0x18, .abortLine false false, .assemble, .consume false false]

/-- **A reset that is not served mixes lines and loses bytes**: a line handled after a
reset was applied holds a byte from before it, whether it was half framed or waited to
be handed over; and a byte read after the reset is discarded. -/
theorem not_isolated_mixedRun :
    ¬(mixedRun.foldl step (start false)).Isolated
      ∧ ¬(lostRun.foldl step (start false)).Isolated
      ∧ ¬(blockedRun.foldl step (start false)).Isolated := by
  exact ⟨by decide, by decide, by decide⟩

end Receiver

end Galdr.Comms
