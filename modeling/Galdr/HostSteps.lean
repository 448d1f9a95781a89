import Galdr.HostCore

/-!
# What the inputs of the core do

One lemma for each input says what the core is after it and which lines it
writes. The loop that sends the lines of a program sends a first part of it: as
much as fits (`releaseLines_spec`).
-/

namespace Galdr.Host

/-- The command empties the window. -/
def RealtimeCommand.resets : RealtimeCommand → Bool
  | .softReset | .programStop => true
  | _ => false

/-- The lines among the effects. -/
def writtenLines (out : List Effect) : List Line :=
  out.filterMap fun e => match e with
    | .writeLine line => some line
    | _ => none

@[simp] theorem writtenLines_append (out out' : List Effect) :
    writtenLines (out ++ out') = writtenLines out ++ writtenLines out' :=
  List.filterMap_append ..

@[simp] theorem writtenLines_nil : writtenLines [] = [] := rfl

namespace FlowWindow

theorem fits_eq_ok_true_iff (w : FlowWindow) (len : ℕ) :
    w.fits len = .ok true ↔ len ≤ w.rxBuffer ∧ w.inflightBytes + len ≤ w.rxBuffer := by
  unfold fits
  by_cases h : len > w.rxBuffer
  · rw [if_pos h]
    simp
    omega
  · rw [if_neg h]
    simp
    omega

/-- A line that fits, with what is in flight, is not longer than the buffer. -/
theorem fits_eq_ok_true_iff' (w : FlowWindow) (len : ℕ) :
    w.fits len = .ok true ↔ w.inflightBytes + len ≤ w.rxBuffer := by
  rw [fits_eq_ok_true_iff]
  omega

end FlowWindow

namespace Turn

@[simp] theorem core_push (t : Turn) (e : Effect) : (t.push e).core = t.core := rfl

@[simp] theorem out_push (t : Turn) (e : Effect) : (t.push e).out = t.out ++ [e] := rfl

@[simp] theorem core_update (t : Turn) (f : ProtocolCore → ProtocolCore) :
    (t.update f).core = f t.core := rfl

@[simp] theorem out_update (t : Turn) (f : ProtocolCore → ProtocolCore) :
    (t.update f).out = t.out := rfl

@[simp] theorem core_emitProgress (t : Turn) : t.emitProgress.core = t.core := rfl

@[simp] theorem core_transition (t : Turn) (next : ConnectionState) :
    (t.transition next).core = { t.core with state := next } := by
  unfold transition
  split
  · rfl
  · rename_i h
    rw [← not_not.1 h]

@[simp] theorem writtenLines_transition (t : Turn) (next : ConnectionState) :
    writtenLines (t.transition next).out = writtenLines t.out := by
  unfold transition
  split
  · simp [writtenLines]
  · rfl

@[simp] theorem writtenLines_emitProgress (t : Turn) :
    writtenLines t.emitProgress.out = writtenLines t.out := by
  simp [emitProgress, writtenLines]

end Turn

namespace ProtocolCore

/-- The core after the lines `sent` of its program, with `rest` left of it. -/
def released (c : ProtocolCore) (sent rest : List Line) : ProtocolCore :=
  { c with
    flow :=
      { c.flow with
        inflight := c.flow.inflight ++ sent.map List.length
        inflightBytes := c.flow.inflightBytes + (sent.map List.length).sum }
    ignoreStrayAcks := c.ignoreStrayAcks && sent.isEmpty
    inflightKinds := c.inflightKinds ++ List.replicate sent.length .program
    program := rest
    programSent := c.programSent + sent.length }

theorem released_nil (c : ProtocolCore) : c.released [] c.program = c := by
  simp [released]

end ProtocolCore

/-- **What the release loop does**: it sends a first part of the program, as much
as fits, in order. -/
theorem releaseLines_spec (program : List Line) (t : Turn) (h : t.core.program = program) :
    ∃ sent rest, program = sent ++ rest
      ∧ (Turn.releaseLines program t).core = t.core.released sent rest
      ∧ writtenLines (Turn.releaseLines program t).out = writtenLines t.out ++ sent
      ∧ (sent ≠ [] → (t.core.released sent rest).flow.inflightBytes ≤ t.core.flow.rxBuffer)
      ∧ ∀ next after, rest = next :: after →
          t.core.flow.rxBuffer < (t.core.released sent rest).flow.inflightBytes + next.length := by
  induction program generalizing t with
  | nil =>
    refine ⟨[], [], rfl, ?_, by simp [Turn.releaseLines], by simp, by simp⟩
    have hsame := ProtocolCore.released_nil t.core
    rw [h] at hsame
    exact hsame.symm
  | cons next rest ih =>
    by_cases hfits : t.core.flow.fits next.length = .ok true
    · have hstep : Turn.releaseLines (next :: rest) t
          = Turn.releaseLines rest (t.releaseLine next rest) := by
        simp only [Turn.releaseLines, hfits]
      obtain ⟨sent, rest', hsplit, hcore, hout, hroom, hfull⟩ := ih (t.releaseLine next rest) rfl
      have hsame : (t.releaseLine next rest).core.released sent rest'
          = t.core.released (next :: sent) rest' := by
        simp [ProtocolCore.released, Turn.releaseLine, ProtocolCore.lineSent,
          FlowWindow.onLineSent, List.replicate_succ, Nat.add_assoc]
        omega
      refine ⟨next :: sent, rest', by rw [hsplit]; rfl, ?_, ?_, fun _ => ?_, ?_⟩
      · rw [hstep, hcore, hsame]
      · rw [hstep, hout]
        simp [Turn.releaseLine, writtenLines]
      · by_cases hsent : sent = []
        · rw [FlowWindow.fits_eq_ok_true_iff'] at hfits
          simpa [ProtocolCore.released, hsent] using hfits
        · rw [← hsame]
          exact hroom hsent
      · rw [← hsame]
        exact hfull
    · refine ⟨[], next :: rest, rfl, ?_, ?_, by simp, ?_⟩
      · have hsame := ProtocolCore.released_nil t.core
        rw [h] at hsame
        rw [hsame]
        unfold Turn.releaseLines
        split
        · exact absurd ‹_› hfits
        · rfl
      · unfold Turn.releaseLines
        split
        · exact absurd ‹_› hfits
        · simp
      · intro next' after' heq
        obtain ⟨rfl, rfl⟩ := List.cons.inj heq
        rw [FlowWindow.fits_eq_ok_true_iff'] at hfits
        simpa [ProtocolCore.released] using hfits

theorem releaseReadyLines_spec (t : Turn) :
    ∃ sent rest, t.core.program = sent ++ rest
      ∧ t.releaseReadyLines.core = t.core.released sent rest
      ∧ writtenLines t.releaseReadyLines.out = writtenLines t.out ++ sent
      ∧ (sent ≠ [] → (t.core.released sent rest).flow.inflightBytes ≤ t.core.flow.rxBuffer)
      ∧ ∀ next after, rest = next :: after →
          t.core.flow.rxBuffer < (t.core.released sent rest).flow.inflightBytes + next.length :=
  releaseLines_spec t.core.program t rfl

namespace ProtocolCore

variable (c : ProtocolCore)

/-! ## Connections -/

@[simp] theorem core_onConnected :
    c.onConnected.core
      = { c with trailingAcks := 0, ignoreStrayAcks := false, state := .connecting } := by
  simp [onConnected]

@[simp] theorem core_onDisconnected :
    c.onDisconnected.core
      = { c.clearProgram.resetWindow false with
          ignoreStrayAcks := false, state := .disconnected } := by
  simp [onDisconnected]

/-! ## Lines -/

/-- A console line is dropped with a fault, or counted and written. -/
theorem onSendLine_cases (line : List UInt8) :
    ((c.onSendLine line).core = c ∧ writtenLines (c.onSendLine line).out = [])
    ∨ ((c.onSendLine line).core = c.lineSent (encodeLine line).length .other
        ∧ writtenLines (c.onSendLine line).out = [encodeLine line]
        ∧ c.flow.inflightBytes + (encodeLine line).length ≤ c.flow.rxBuffer) := by
  unfold onSendLine
  rcases hfits : c.flow.fits (encodeLine line).length with err | ok
  · exact .inl (by simp [hfits, writtenLines])
  · cases ok with
    | false => exact .inl (by simp [hfits, writtenLines])
    | true =>
      rw [FlowWindow.fits_eq_ok_true_iff'] at hfits
      refine .inr ⟨?_, ?_, hfits⟩ <;>
        simp [(FlowWindow.fits_eq_ok_true_iff' ..).2 hfits, writtenLines]

@[simp] theorem core_beginHandshake :
    c.beginHandshake.core = (c.onSendLine [0x24, 0x49]).core := rfl

@[simp] theorem writtenLines_beginHandshake :
    writtenLines c.beginHandshake.out = writtenLines (c.onSendLine [0x24, 0x49]).out := by
  simp [beginHandshake, writtenLines]

/-! ## Programs -/

/-- The lines of a program that was encoded can be sent. -/
theorem length_le_of_encodeProgram {flow : FlowWindow} {lines : List (List UInt8)}
    {program : List Line} (h : encodeProgram flow lines = .ok program) :
    program = lines.map encodeLine ∧ ∀ line ∈ program, line.length ≤ flow.rxBuffer := by
  induction lines generalizing program with
  | nil =>
    obtain rfl : [] = program := by simpa [encodeProgram] using h
    simp
  | cons line rest ih =>
    unfold encodeProgram FlowWindow.fits at h
    by_cases hlen : (encodeLine line).length > flow.rxBuffer
    · rw [if_pos hlen] at h
      exact absurd h (by simp)
    · rw [if_neg hlen] at h
      cases hrest : encodeProgram flow rest with
      | error err =>
        rw [hrest] at h
        exact absurd h (by simp [Except.map])
      | ok tail =>
        rw [hrest] at h
        obtain rfl : encodeLine line :: tail = program := by simpa [Except.map] using h
        obtain ⟨rfl, hall⟩ := ih hrest
        refine ⟨rfl, fun x hx => ?_⟩
        rcases List.mem_cons.1 hx with rfl | hx
        · exact not_lt.1 hlen
        · exact hall x hx

/-- The core with a program loaded, before its first line is sent. -/
def loaded (program : List Line) : ProtocolCore :=
  { c.clearProgram with
    program := program
    programTotal := program.length
    state := .streaming }

/-- A program is refused, or has no line, or is loaded and its first lines sent. -/
theorem onStreamProgram_cases (lines : List (List UInt8)) :
    ((∃ state, (c.onStreamProgram lines).core = { c.clearProgram with state := state }
        ∧ (state = c.state ∨ state = .idle))
      ∧ writtenLines (c.onStreamProgram lines).out = [])
    ∨ ∃ sent rest, sent ++ rest = lines.map encodeLine ∧ sent ++ rest ≠ []
        ∧ (∀ line ∈ sent ++ rest, line.length ≤ c.flow.rxBuffer)
        ∧ (c.onStreamProgram lines).core = (c.loaded (sent ++ rest)).released sent rest
        ∧ writtenLines (c.onStreamProgram lines).out = sent
        ∧ (sent ≠ [] → ((c.loaded (sent ++ rest)).released sent rest).flow.inflightBytes
            ≤ c.flow.rxBuffer)
        ∧ ∀ next after, rest = next :: after → c.flow.rxBuffer
            < ((c.loaded (sent ++ rest)).released sent rest).flow.inflightBytes
              + next.length := by
  unfold onStreamProgram
  cases hprogram : encodeProgram c.clearProgram.flow lines with
  | error err =>
    simp only [hprogram]
    exact .inl ⟨⟨c.state, rfl, .inl rfl⟩, rfl⟩
  | ok program =>
    obtain ⟨hlines, hall⟩ := length_le_of_encodeProgram hprogram
    simp only [hprogram]
    by_cases hempty : program = []
    · subst hempty
      rw [if_pos rfl]
      by_cases hconn : c.clearProgram.state.isConnected = true
      · rw [if_pos hconn]
        exact .inl ⟨⟨.idle, by simp [clearProgram], .inr rfl⟩, by simp⟩
      · rw [if_neg hconn]
        exact .inl ⟨⟨c.state, by simp [clearProgram], .inl rfl⟩, by simp⟩
    · rw [if_neg hempty]
      obtain ⟨sent, rest, hsplit, hcore, hout, hroom, hfull⟩ := releaseReadyLines_spec
        ((⟨{ c.clearProgram with program := program, programTotal := program.length }, []⟩ :
          Turn).transition .streaming)
      rw [Turn.core_transition] at hsplit hcore hroom hfull
      obtain rfl : program = sent ++ rest := hsplit
      refine .inr ⟨sent, rest, hlines, hempty, hall, ?_, ?_, hroom, hfull⟩
      · rw [Turn.core_emitProgress, hcore]
        rfl
      · rw [Turn.writtenLines_emitProgress, hout]
        simp

/-! ## Real-time commands -/

/-- A stop and a reset: the program and the window go. -/
theorem core_abort (t : Turn) :
    ∃ state, (abort t).core
        = { t.core.clearProgram.resetWindow false with
            ignoreStrayAcks := true, state := state }
      ∧ (state = .idle ∨ t.core.state.isConnected = false ∧ state = t.core.state) := by
  unfold abort
  by_cases h : t.core.state.isConnected = true
  · exact ⟨.idle, by simp [h, clearProgram, resetWindow], .inl rfl⟩
  · exact ⟨t.core.state, by simp [h, clearProgram, resetWindow], .inr ⟨by simpa using h, rfl⟩⟩

@[simp] theorem writtenLines_abort (t : Turn) :
    writtenLines (abort t).out = writtenLines t.out := by
  unfold abort
  have hquiet : ∀ t : Turn, writtenLines (t.push .abortQueued).out = writtenLines t.out := by
    intro t
    simp [writtenLines]
  dsimp only
  split
  · rw [Turn.writtenLines_transition, hquiet]
    simp
  · rw [hquiet]
    simp

/-- The effect of the real-time commands on the core: two of them empty the
window, two move between streaming and hold, the others do nothing. -/
theorem core_onRealtime (cmd : RealtimeCommand) :
    (c.onRealtime cmd).core
      = match cmd with
        | .feedHold => if c.state = .streaming then { c with state := .hold } else c
        | .cycleStart => if c.state = .hold then { c with state := .streaming } else c
        | .softReset | .programStop => (abort ⟨c, [.writeRealtime [cmd.byte]]⟩).core
        | _ => c := by
  cases cmd <;> simp only [onRealtime]
  case cycleStart => split <;> simp
  case feedHold => split <;> simp

@[simp] theorem writtenLines_onRealtime (cmd : RealtimeCommand) :
    writtenLines (c.onRealtime cmd).out = [] := by
  cases cmd <;> simp only [onRealtime] <;> try rfl
  case softReset =>
    rw [writtenLines_abort]
    rfl
  case programStop =>
    rw [writtenLines_abort]
    rfl
  case cycleStart =>
    split
    · rw [Turn.writtenLines_transition]
      rfl
    · rfl
  case feedHold =>
    split
    · rw [Turn.writtenLines_transition]
      rfl
    · rfl

/-- The window after a command that empties it. -/
theorem core_onRealtime_of_resets (c : ProtocolCore) {cmd : RealtimeCommand}
    (hresets : cmd.resets = true) :
    ∃ state, (c.onRealtime cmd).core
      = { c.clearProgram.resetWindow false with ignoreStrayAcks := true, state := state }
        ∧ (state = .error → c.state = .error) := by
  have habort : (c.onRealtime cmd).core = (abort ⟨c, [.writeRealtime [cmd.byte]]⟩).core := by
    rw [core_onRealtime]
    cases cmd <;> first | rfl | exact absurd hresets (by decide)
  obtain ⟨state, hcore, hstate⟩ := core_abort ⟨c, [.writeRealtime [cmd.byte]]⟩
  refine ⟨state, habort.trans hcore, fun herr => ?_⟩
  rcases hstate with rfl | ⟨-, rfl⟩
  · exact absurd herr (by decide)
  · exact herr

/-- A real-time command that does not empty the window leaves what is in flight. -/
theorem core_onRealtime_of_not_resets (c : ProtocolCore) {cmd : RealtimeCommand}
    (hresets : cmd.resets = false) :
    ∃ state, (c.onRealtime cmd).core = { c with state := state }
      ∧ (state = .error → c.state = .error) := by
  rw [core_onRealtime]
  cases cmd
  case softReset => exact absurd hresets (by decide)
  case programStop => exact absurd hresets (by decide)
  case feedHold =>
    by_cases h : c.state = .streaming
    · simp only [if_pos h]
      exact ⟨.hold, rfl, fun herr => absurd herr (by decide)⟩
    · simp only [if_neg h]
      exact ⟨c.state, rfl, id⟩
  case cycleStart =>
    by_cases h : c.state = .hold
    · simp only [if_pos h]
      exact ⟨.streaming, rfl, fun herr => absurd herr (by decide)⟩
    · simp only [if_neg h]
      exact ⟨c.state, rfl, id⟩
  all_goals exact ⟨c.state, rfl, id⟩

/-! ## Responses -/

theorem learnRxBuffer_cases (response : Response) :
    c.learnRxBuffer response = c
    ∨ ∃ body rx, response = .message body ∧ c.pinnedRxWindow = none
        ∧ rxBufferFromOpt body = some rx
        ∧ c.learnRxBuffer response = { c with flow := c.flow.setRxBuffer rx } := by
  unfold learnRxBuffer
  split
  · rename_i body hpinned
    split
    · exact .inr ⟨body, _, rfl, hpinned, ‹_›, rfl⟩
    · exact .inl rfl
  · exact .inl rfl

/-- A response ends the handshake, or is a status report the host follows, or leaves
the state. -/
theorem adoptState_cases (t : Turn) (response : Response) :
    adoptState t response = t
    ∨ (t.core.state = .connecting
        ∧ adoptState t response = t.transition (adoptedStateFor response))
    ∨ ∃ body state, response = .status body
        ∧ (t.core.state = .alarm ∨ t.core.state = .hold ∨ t.core.state = .idle)
        ∧ lifecycleFromStatusRunstate (statusRunState body) = some state
        ∧ adoptState t response = t.transition state := by
  unfold adoptState
  split
  · exact .inr (.inl ⟨(‹_ ∧ _› : _ ∧ _).1, rfl⟩)
  · split
    · split
      · split
        · exact .inr (.inr ⟨_, _, rfl, ‹_›, ‹_›, rfl⟩)
        · exact .inl rfl
      · exact .inl rfl
    · exact .inl rfl

/-! ## Answers -/

/-- The core with its oldest line in flight answered. -/
def acked (c : ProtocolCore) (len : ℕ) (rest : List ℕ) : ProtocolCore :=
  { c with
    flow := { c.flow with inflight := rest, inflightBytes := c.flow.inflightBytes - len }
    inflightKinds := c.inflightKinds.tail }

/-- A line of the program counts as answered. -/
def bumped (c : ProtocolCore) : ProtocolCore :=
  if c.programAcked < c.programTotal then { c with programAcked := c.programAcked + 1 } else c

end ProtocolCore

namespace Turn

open ProtocolCore

variable (t : Turn)

/-- An answer with nothing in flight touches the tolerance only. -/
theorem onAck_of_empty (isError : Bool) (h : t.core.flow.inflight = []) :
    (∃ n, (t.onAck isError).core = { t.core with trailingAcks := n })
      ∧ writtenLines (t.onAck isError).out = writtenLines t.out := by
  have hack : t.core.flow.onAck = .error .unexpectedAck := by
    unfold FlowWindow.onAck
    rw [h]
  unfold onAck
  simp only [hack]
  split
  · exact ⟨⟨_, rfl⟩, rfl⟩
  · split
    · exact ⟨⟨_, rfl⟩, rfl⟩
    · exact ⟨⟨_, rfl⟩, by simp [writtenLines]⟩

/-- An answer to a console line frees it. -/
theorem onAck_of_other (isError : Bool) {len : ℕ} {rest : List ℕ}
    (h : t.core.flow.inflight = len :: rest) (hkind : t.core.inflightKinds.headD .other = .other) :
    t.onAck isError = (t.update fun c => c.acked len rest).streamOn := by
  have hack : t.core.flow.onAck = .ok (len, { t.core.flow with
      inflight := rest, inflightBytes := t.core.flow.inflightBytes - len }) := by
    unfold FlowWindow.onAck
    rw [h]
  unfold onAck
  simp only [hack, hkind, if_true]
  rfl

/-- An `ok` to a line of the program frees it and counts it. -/
theorem onAck_of_program {len : ℕ} {rest : List ℕ}
    (h : t.core.flow.inflight = len :: rest)
    (hkind : t.core.inflightKinds.headD .other = .program) :
    t.onAck false = (t.update fun c => (c.acked len rest).bumped).streamOn := by
  have hack : t.core.flow.onAck = .ok (len, { t.core.flow with
      inflight := rest, inflightBytes := t.core.flow.inflightBytes - len }) := by
    unfold FlowWindow.onAck
    rw [h]
  unfold onAck
  simp only [hack, hkind]
  rfl

/-- An error to a line of the program ends the program. -/
theorem onAck_of_program_error {len : ℕ} {rest : List ℕ}
    (h : t.core.flow.inflight = len :: rest)
    (hkind : t.core.inflightKinds.headD .other = .program) :
    t.onAck true
      = (t.update fun c => (c.acked len rest).bumped.clearProgram).transition .error := by
  have hack : t.core.flow.onAck = .ok (len, { t.core.flow with
      inflight := rest, inflightBytes := t.core.flow.inflightBytes - len }) := by
    unfold FlowWindow.onAck
    rw [h]
  unfold onAck
  simp only [hack, hkind]
  rfl

/-- What follows an answer: outside streaming nothing, and in it the lines that fit
are sent, and a program that is done moves to idle. -/
theorem streamOn_cases :
    (t.core.state ≠ .streaming ∧ t.streamOn = t)
    ∨ t.core.state = .streaming
      ∧ ∃ sent rest, t.core.program = sent ++ rest
        ∧ writtenLines t.streamOn.out = writtenLines t.out ++ sent
        ∧ (sent ≠ [] → (t.core.released sent rest).flow.inflightBytes ≤ t.core.flow.rxBuffer)
        ∧ (∀ next after, rest = next :: after → t.core.flow.rxBuffer
            < (t.core.released sent rest).flow.inflightBytes + next.length)
        ∧ (((t.core.released sent rest).hasProgramInflight = false ∧ rest = []
            ∧ t.streamOn.core = { t.core.released sent rest with state := .idle })
          ∨ (¬(rest = [] ∧ (t.core.released sent rest).hasProgramInflight = false)
            ∧ t.streamOn.core = t.core.released sent rest)) := by
  unfold streamOn
  by_cases hstate : t.core.state = .streaming
  · rw [if_pos hstate]
    refine .inr ⟨hstate, ?_⟩
    obtain ⟨sent, rest, hsplit, hcore, hout, hroom, hfull⟩ := releaseReadyLines_spec t
    refine ⟨sent, rest, hsplit, ?_, hroom, hfull, ?_⟩
    · unfold completeIfDrained
      split
      · rw [writtenLines_transition, writtenLines_emitProgress, hout]
      · rw [writtenLines_emitProgress, hout]
    · unfold completeIfDrained
      rw [core_emitProgress, hcore, show (t.core.released sent rest).program = rest from rfl]
      by_cases hdone : rest = [] ∧ (t.core.released sent rest).hasProgramInflight = false
      · refine .inl ⟨hdone.2, hdone.1, ?_⟩
        rw [if_pos hdone, core_transition, core_emitProgress, hcore]
      · refine .inr ⟨hdone, ?_⟩
        rw [if_neg hdone, core_emitProgress, hcore]
  · rw [if_neg hstate]
    exact .inl ⟨hstate, rfl⟩

/-- What follows an answer, outside streaming and in it: a first part of the queued
lines is sent, and the state stays or is idle. -/
theorem streamOn_sends :
    ∃ sent rest state, t.core.program = sent ++ rest
      ∧ t.streamOn.core = { t.core.released sent rest with state := state }
      ∧ (state = t.core.state ∨ state = .idle)
      ∧ writtenLines t.streamOn.out = writtenLines t.out ++ sent
      ∧ (sent ≠ [] → (t.core.released sent rest).flow.inflightBytes
          ≤ t.core.flow.rxBuffer) := by
  rcases t.streamOn_cases with
    ⟨-, hsame⟩ | ⟨-, sent, rest, hsplit, hout, hroom, -, hcase⟩
  · refine ⟨[], t.core.program, t.core.state, rfl, ?_, .inl rfl, by rw [hsame]; simp, by simp⟩
    rw [hsame, released_nil]
  · rcases hcase with ⟨-, -, hcore⟩ | ⟨-, hcore⟩
    · exact ⟨sent, rest, .idle, hsplit, hcore, .inr rfl, hout, hroom⟩
    · exact ⟨sent, rest, t.core.state, hsplit, hcore, .inl rfl, hout, hroom⟩

/-- **What an answer does** with something in flight: an error to a line of the
program ends the program; any other answer frees the oldest line, counts it if it is
the program's, and sends a first part of the queued lines. -/
theorem onAck_cases (isError : Bool) {len : ℕ} {tail : List ℕ}
    (h : t.core.flow.inflight = len :: tail) :
    (t.core.inflightKinds.headD .other = .program ∧ isError = true
      ∧ (t.onAck isError).core
          = { (t.core.acked len tail).bumped.clearProgram with state := .error }
      ∧ writtenLines (t.onAck isError).out = writtenLines t.out)
    ∨ ∃ base sent rest state,
        base = (if t.core.inflightKinds.headD .other = .program
          then (t.core.acked len tail).bumped else t.core.acked len tail)
        ∧ base.program = sent ++ rest
        ∧ (t.onAck isError).core = { base.released sent rest with state := state }
        ∧ (state = t.core.state ∨ state = .idle)
        ∧ writtenLines (t.onAck isError).out = writtenLines t.out ++ sent
        ∧ (sent ≠ [] → (base.released sent rest).flow.inflightBytes
            ≤ t.core.flow.rxBuffer) := by
  cases hkind : t.core.inflightKinds.headD .other with
  | other =>
    refine .inr ⟨t.core.acked len tail, ?_⟩
    rw [t.onAck_of_other isError h hkind]
    obtain ⟨sent, rest, state, hsend⟩ :=
      (t.update fun c => c.acked len tail).streamOn_sends
    exact ⟨sent, rest, state, rfl, hsend⟩
  | program =>
    cases isError with
    | true =>
      refine .inl ⟨rfl, rfl, ?_⟩
      rw [t.onAck_of_program_error h hkind, core_transition, writtenLines_transition]
      exact ⟨rfl, rfl⟩
    | false =>
      refine .inr ⟨(t.core.acked len tail).bumped, ?_⟩
      rw [t.onAck_of_program h hkind]
      obtain ⟨sent, rest, state, hsplit, hcore, hstate, hout, hroom⟩ :=
        (t.update fun c => (c.acked len tail).bumped).streamOn_sends
      have hbumped : (t.core.acked len tail).bumped.flow.rxBuffer = t.core.flow.rxBuffer
          ∧ (t.core.acked len tail).bumped.state = t.core.state := by
        unfold bumped
        split <;> exact ⟨rfl, rfl⟩
      refine ⟨sent, rest, state, rfl, hsplit, hcore, ?_, hout, fun hsent => ?_⟩
      · rw [← hbumped.2]
        exact hstate
      · rw [← hbumped.1]
        exact hroom hsent

end Turn

namespace ProtocolCore

variable {c : ProtocolCore}

theorem learnRxBuffer_of_ne_message {response : Response}
    (h : ∀ body, response ≠ .message body) : c.learnRxBuffer response = c := by
  rcases c.learnRxBuffer_cases response with hsame | ⟨body, -, hbody, -⟩
  · exact hsame
  · exact absurd hbody (h body)

/-- **An answer is an answer**, and may end the handshake before. -/
theorem handle_answer {response : Response} (h : response.isAnswer = true) :
    ∃ t : Turn, c.handle (.response response) = t.onAck (decide (response ≠ .ok))
      ∧ (∃ state, t.core = { c with state := state } ∧ (state = c.state ∨ state = .idle))
      ∧ writtenLines t.out = [] := by
  have hlearn : c.learnRxBuffer response = c :=
    learnRxBuffer_of_ne_message fun body hbody => by
      subst hbody
      exact absurd h (by simp [Response.isAnswer])
  have hidle : adoptedStateFor response = .idle := by
    cases response <;> first | rfl | exact absurd h (by simp [Response.isAnswer])
  refine ⟨adoptState ⟨c, [.response response]⟩ response, ?_, ?_, ?_⟩
  · show react (adoptState ⟨c.learnRxBuffer response, _⟩ response) response = _
    rw [hlearn]
    cases response <;> first | rfl | exact absurd h (by simp [Response.isAnswer])
  · rcases adoptState_cases ⟨c, [.response response]⟩ response with
      hsame | ⟨-, hadopt⟩ | ⟨body, state, hbody, -⟩
    · rw [hsame]
      exact ⟨c.state, rfl, .inl rfl⟩
    · rw [hadopt, Turn.core_transition, hidle]
      exact ⟨.idle, rfl, .inr rfl⟩
    · subst hbody
      exact absurd h (by simp [Response.isAnswer])
  · rcases adoptState_cases ⟨c, [.response response]⟩ response with
      hsame | ⟨-, hadopt⟩ | ⟨body, state, hbody, -⟩
    · rw [hsame]
      rfl
    · rw [hadopt, Turn.writtenLines_transition]
      rfl
    · subst hbody
      exact absurd h (by simp [Response.isAnswer])

theorem adoptedStateFor_cases (response : Response) :
    adoptedStateFor response = .idle ∨ adoptedStateFor response = .hold
      ∨ adoptedStateFor response = .alarm := by
  unfold adoptedStateFor
  split
  · split <;> simp
  · simp
  · simp

theorem eq_of_lifecycleFromStatusRunstate {reported : RunState} {state : ConnectionState}
    (h : lifecycleFromStatusRunstate reported = some state) :
    (reported = .idle ∧ state = .idle) ∨ (reported = .hold ∧ state = .hold)
      ∨ reported = .alarm ∧ state = .alarm := by
  cases reported <;> simp_all [lifecycleFromStatusRunstate]

/-- Following a response changes the state only, and never to streaming or error. -/
theorem core_adoptState (t : Turn) (response : Response) :
    ∃ state, (adoptState t response).core = { t.core with state := state }
      ∧ writtenLines (adoptState t response).out = writtenLines t.out
      ∧ (state = t.core.state ∨ state = .idle ∨ state = .hold ∨ state = .alarm) := by
  rcases adoptState_cases t response with
    hsame | ⟨-, hadopt⟩ | ⟨body, state, -, -, hrun, hadopt⟩
  · rw [hsame]
    exact ⟨t.core.state, rfl, rfl, .inl rfl⟩
  · rw [hadopt, Turn.core_transition, Turn.writtenLines_transition]
    exact ⟨_, rfl, rfl, .inr (adoptedStateFor_cases response)⟩
  · rw [hadopt, Turn.core_transition, Turn.writtenLines_transition]
    refine ⟨state, rfl, rfl, .inr ?_⟩
    rcases eq_of_lifecycleFromStatusRunstate hrun with ⟨-, rfl⟩ | ⟨-, rfl⟩ | ⟨-, rfl⟩ <;> simp

/-- **A banner** empties the window and ends the program. -/
theorem handle_banner (text : List Char) :
    writtenLines (c.handle (.response (.banner text))).out = []
      ∧ c.step (.response (.banner text))
          = { c.clearProgram.resetWindow true with ignoreStrayAcks := false, state := .idle } := by
  have hlearn : c.learnRxBuffer (.banner text) = c :=
    learnRxBuffer_of_ne_message fun body hbody => absurd hbody (by simp)
  obtain ⟨state, hcore, hout, -⟩ :=
    core_adoptState ⟨c.learnRxBuffer (.banner text), [.response (.banner text)]⟩ (.banner text)
  rw [hlearn] at hcore hout
  have hquiet : ∀ t : Turn, writtenLines (t.push .abortQueued).out = writtenLines t.out := by
    intro t
    simp [writtenLines]
  constructor
  · show writtenLines (react (adoptState ⟨c.learnRxBuffer (.banner text), _⟩ _) _).out = []
    rw [hlearn]
    unfold react
    rw [Turn.writtenLines_transition, hquiet, Turn.out_update, hout]
    rfl
  · show (react (adoptState ⟨c.learnRxBuffer (.banner text), _⟩ _) _).core = _
    rw [hlearn]
    unfold react
    rw [Turn.core_transition, Turn.core_push, Turn.core_update, hcore]
    rfl

/-- **Any other response that is not an answer** writes nothing and leaves what is in
flight. It may resize the window, and an alarm ends the program. -/
theorem handle_push {response : Response} (h : response.isAnswer = false)
    (hbanner : ∀ text, response ≠ .banner text) :
    writtenLines (c.handle (.response response)).out = []
      ∧ ∃ base state, (base = c.learnRxBuffer response
          ∨ base = (c.learnRxBuffer response).clearProgram)
        ∧ c.step (.response response) = { base with state := state }
        ∧ (state = .error → c.state = .error) := by
  obtain ⟨state, hcore, hout, hstate⟩ :=
    core_adoptState ⟨c.learnRxBuffer response, [.response response]⟩ response
  have hkeep : (c.learnRxBuffer response).state = c.state := by
    rcases c.learnRxBuffer_cases response with hsame | ⟨_, _, -, -, -, hsame⟩
    · rw [hsame]
    · rw [hsame]
  have herror : state = .error → c.state = .error := by
    intro herr
    rcases hstate with hs | hs | hs | hs
    · rw [← hkeep, ← herr]
      exact hs.symm
    all_goals exact absurd (herr.symm.trans hs) (by decide)
  show writtenLines (react (adoptState _ response) response).out = []
    ∧ ∃ base state, _ ∧ (react (adoptState _ response) response).core = _ ∧ _
  cases response
  case ok => exact absurd h (by decide)
  case error code => exact absurd h (by simp [Response.isAnswer])
  case banner text => exact absurd rfl (hbanner text)
  case alarm code =>
    unfold react
    rw [Turn.writtenLines_transition, Turn.out_update, hout, Turn.core_transition,
      Turn.core_update, hcore]
    exact ⟨rfl, _, .alarm, .inr rfl, rfl, fun herr => absurd herr (by decide)⟩
  all_goals
    refine ⟨hout.trans rfl, _, state, .inl rfl, hcore, herror⟩

@[simp] theorem state_bumped (c : ProtocolCore) : c.bumped.state = c.state := by
  unfold bumped
  split <;> rfl

@[simp] theorem program_bumped (c : ProtocolCore) : c.bumped.program = c.program := by
  unfold bumped
  split <;> rfl

@[simp] theorem flow_bumped (c : ProtocolCore) : c.bumped.flow = c.flow := by
  unfold bumped
  split <;> rfl

@[simp] theorem pinnedRxWindow_bumped (c : ProtocolCore) :
    c.bumped.pinnedRxWindow = c.pinnedRxWindow := by
  unfold bumped
  split <;> rfl

@[simp] theorem inflightKinds_bumped (c : ProtocolCore) :
    c.bumped.inflightKinds = c.inflightKinds := by
  unfold bumped
  split <;> rfl

/-! ## The count -/

/-- The window and the kinds count the same lines. -/
structure Counted (c : ProtocolCore) : Prop where
  /-- The bytes in flight are those of the lines in flight. -/
  bytes : c.flow.inflightBytes = c.flow.inflight.sum
  /-- Every line in flight has its kind. -/
  kinds : c.inflightKinds.length = c.flow.inflight.length

theorem Counted.released (h : c.Counted) (sent rest : List Line) :
    (c.released sent rest).Counted where
  bytes := by
    show c.flow.inflightBytes + _ = (c.flow.inflight ++ _).sum
    rw [h.bytes, List.sum_append]
  kinds := by
    show (c.inflightKinds ++ _).length = (c.flow.inflight ++ _).length
    simp [h.kinds]

theorem Counted.lineSent (h : c.Counted) (len : ℕ) (kind : InflightKind) :
    (c.lineSent len kind).Counted where
  bytes := by
    show c.flow.inflightBytes + len = (c.flow.inflight ++ [len]).sum
    rw [h.bytes, List.sum_append, List.sum_singleton]
  kinds := by
    show (c.inflightKinds ++ [kind]).length = (c.flow.inflight ++ [len]).length
    simp [h.kinds]

theorem Counted.acked (h : c.Counted) {len : ℕ} {rest : List ℕ}
    (hflow : c.flow.inflight = len :: rest) : (c.acked len rest).Counted where
  bytes := by
    show c.flow.inflightBytes - len = rest.sum
    rw [h.bytes, hflow, List.sum_cons, Nat.add_sub_cancel_left]
  kinds := by
    show c.inflightKinds.tail.length = rest.length
    rw [List.length_tail, h.kinds, hflow, List.length_cons, Nat.add_sub_cancel]

theorem Counted.bumped (h : c.Counted) : c.bumped.Counted := by
  unfold ProtocolCore.bumped
  split
  · exact ⟨h.bytes, h.kinds⟩
  · exact h

end ProtocolCore

end Galdr.Host
