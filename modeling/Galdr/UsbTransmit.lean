import Galdr.LineReassembler

/-!
# Writing responses to the host

One task writes the responses, byte by byte into the buffer of the endpoint. A packet is committed
when it is full or the response ends, and while it waits for the host the buffer refuses further
bytes. Where a byte or a commit makes no progress for two seconds the response is given up, and the
task goes on to the next.

What was pushed of a response and not committed is never left in the buffer (`run_inv`), so the
stream of the host is made of whole packets: every byte of a response that was completed, and of
one that was given up the packets that were committed.
-/

namespace Galdr.Comms.UsbTx

open Galdr.Host (LineReassembler)
open Galdr.Host.LineReassembler (linesOf begunBy Plain)

/-- A response: one line or more, each with its terminator. -/
structure Response where
  /-- The lines. -/
  lines : List (List UInt8)
  /-- There is one. -/
  ne_nil : lines ≠ []
  /-- There is no terminator in a line. -/
  plain : ∀ line ∈ lines, ∀ byte ∈ line, byte ≠ 13 ∧ byte ≠ 10

/-- The bytes of a response. -/
def Response.bytes (r : Response) : List UInt8 := r.lines.flatMap (· ++ [13, 10])

/-- How the writing of a response ended. -/
inductive WriteOutcome
  | completed | stalled
  deriving DecidableEq

/-- What the loop does after an attempt. -/
inductive PollAction
  | advance | yield | stall
  deriving DecidableEq

/-- What the loop does after an attempt, of which it is known whether it made progress. -/
def usbTxPollAction (madeProgress deadlineExceeded : Bool) : PollAction :=
  if madeProgress then .advance else if deadlineExceeded then .stall else .yield

/-- Microseconds without progress after which a response is given up. -/
def usbTxTimeout : ℕ := 2000000

/-- The bytes of a packet. -/
def usbTxPacketBytes : ℕ := 64

/-- An attempt, and the deadline after it: it is set by the first one without progress and cleared
by progress. -/
def step (progressed : Bool) (now : ℕ) (deadline : Option ℕ) : PollAction × Option ℕ :=
  if progressed then (.advance, none)
  else
    let d := deadline.getD (now + usbTxTimeout)
    (usbTxPollAction false (decide (d ≤ now)), some d)

/-! ## The buffer -/

/-- The buffer of the endpoint, and what the host has received. -/
structure Fifo where
  /-- The bytes that have been pushed and not committed. -/
  filling : List UInt8
  /-- The packet that waits for the host. -/
  committed : Option (List UInt8)
  /-- What the host has received. -/
  received : List UInt8
  deriving DecidableEq

namespace Fifo

/-- A byte can be pushed. -/
def accepts (f : Fifo) : Bool := f.committed.isNone && decide (f.filling.length < usbTxPacketBytes)

/-- Push a byte, if one can be pushed. -/
def writeByteNb (f : Fifo) (byte : UInt8) : Fifo × Bool :=
  if f.accepts then ({ f with filling := f.filling ++ [byte] }, true) else (f, false)

/-- Commit the packet. -/
def wrDone (f : Fifo) : Fifo :=
  { f with filling := [], committed := some (f.committed.getD [] ++ f.filling) }

/-- The host takes the packet. -/
def drain (f : Fifo) : Fifo :=
  { f with committed := none, received := f.received ++ f.committed.getD [] }

/-- What the host has received, and the packet that it will. -/
def stream (f : Fifo) : List UInt8 := f.received ++ f.committed.getD []

@[simp] theorem stream_drain (f : Fifo) : f.drain.stream = f.stream :=
  List.append_nil _

end Fifo

/-! ## The task -/

/-- What the task is about to do. -/
inductive Stage
  /-- It pushes the next byte. -/
  | push
  /-- It commits the packet. -/
  | flush
  /-- It waits for the commit to register. -/
  | commit
  deriving DecidableEq

/-- The writing of a response. -/
structure Write where
  /-- The response. -/
  response : Response
  /-- The bytes that have been pushed. -/
  pos : ℕ
  /-- The bytes that have been committed. -/
  committed : ℕ
  /-- What is to be done. -/
  stage : Stage
  /-- When the response is given up. -/
  deadline : Option ℕ

/-- A response that has been written or given up. -/
structure Sent where
  /-- The response. -/
  response : Response
  /-- How it ended. -/
  outcome : WriteOutcome
  /-- The bytes that have been committed. -/
  committed : ℕ

/-- The task, the buffer, and the history of the responses. -/
structure Writer where
  /-- The buffer. -/
  fifo : Fifo
  /-- The response that is written. -/
  write : Option Write
  /-- The responses before it. -/
  log : List Sent

/-- The task before the first response. -/
def Writer.start : Writer := ⟨⟨[], none, []⟩, none, []⟩

/-- What a run is made of. -/
inductive Event
  /-- The task takes a response from the channel. -/
  | receive (response : Response)
  /-- It makes an attempt at a time; a commit has registered or not. -/
  | poll (now : ℕ) (registered : Bool)
  /-- The host takes a packet. -/
  | drain

namespace Writer

/-- The response ends. -/
def finish (s : Writer) (w : Write) (outcome : WriteOutcome) : Writer :=
  { s with write := none, log := s.log ++ [⟨w.response, outcome, w.committed⟩] }

/-- After a packet: the next one, or the end of the response. -/
def nextPacket (s : Writer) (w : Write) : Writer :=
  if w.pos = w.response.bytes.length then s.finish w .completed
  else { s with write := some { w with stage := .push } }

/-- The attempt to push a byte. -/
def pollPush (s : Writer) (w : Write) (byte : UInt8) (now : ℕ) : Writer :=
  let pushed := s.fifo.writeByteNb byte
  let attempt := step pushed.2 now w.deadline
  match attempt.1 with
  | .advance =>
    let pos := w.pos + 1
    let last := pos % usbTxPacketBytes = 0 ∨ pos = w.response.bytes.length
    { s with
      fifo := pushed.1
      write := some { w with
        pos := pos, deadline := attempt.2, stage := if last then .flush else .push } }
  | .stall => s.finish w .stalled
  | .yield => { s with write := some { w with deadline := attempt.2 } }

/-- The commit of a packet. -/
def pollFlush (s : Writer) (w : Write) (registered : Bool) : Writer :=
  let s := { s with fifo := s.fifo.wrDone }
  let w := { w with committed := w.pos }
  if registered then s.nextPacket w else { s with write := some { w with stage := .commit } }

/-- The wait for a commit to register. -/
def pollCommit (s : Writer) (w : Write) (now : ℕ) (registered : Bool) : Writer :=
  let attempt := step registered now w.deadline
  match attempt.1 with
  | .advance => s.nextPacket { w with deadline := attempt.2 }
  | .stall => s.finish w .stalled
  | .yield => { s with write := some { w with deadline := attempt.2 } }

/-- One step of a run. -/
def next (s : Writer) : Event → Writer
  | .drain => { s with fifo := s.fifo.drain }
  | .receive response =>
    match s.write with
    | some _ => s
    | none => { s with write := some ⟨response, 0, 0, .push, none⟩ }
  | .poll now registered =>
    match s.write with
    | none => s
    | some w =>
      match w.stage with
      | .push =>
        match w.response.bytes[w.pos]? with
        | some byte => s.pollPush w byte now
        | none => s
      | .flush => s.pollFlush w registered
      | .commit => s.pollCommit w now registered

/-- A run. -/
def run (events : List Event) : Writer := events.foldl next start

/-- What each response has put on the wire, the one that is written last. -/
def onWire (s : Writer) : List (List UInt8) :=
  s.log.map (fun e => e.response.bytes.take e.committed)
    ++ (s.write.map fun w => w.response.bytes.take w.committed).toList

end Writer

/-! ## Responses on the wire -/

namespace Response

/-- A line and its terminator. -/
theorem push_line {line : List UInt8} (hplain : ∀ byte ∈ line, byte ≠ 13 ∧ byte ≠ 10) :
    LineReassembler.new.push (line ++ [13, 10]) = (.new, [line]) := by
  obtain ⟨hlines, hbuffer, hpending⟩ :=
    LineReassembler.push_plain (r := LineReassembler.new) hplain
  have hstate : (LineReassembler.new.push line).1 = ⟨line, none⟩ := by
    rw [← hpending (.inl rfl)]
    exact congrArg (fun b => (⟨b, _⟩ : LineReassembler)) hbuffer
  rw [LineReassembler.push_append, hlines, hstate]
  rfl

theorem push_lines (lines : List (List UInt8))
    (hplain : ∀ line ∈ lines, ∀ byte ∈ line, byte ≠ 13 ∧ byte ≠ 10) :
    LineReassembler.new.push (lines.flatMap (· ++ [13, 10])) = (.new, lines) := by
  induction lines with
  | nil => rfl
  | cons line rest ih =>
    rw [List.flatMap_cons, LineReassembler.push_append, push_line (hplain line List.mem_cons_self),
      ih fun l hl => hplain l (List.mem_cons_of_mem _ hl)]
    rfl

/-- **A response is its lines.** -/
theorem push_bytes (r : Response) : LineReassembler.new.push r.bytes = (.new, r.lines) :=
  push_lines r.lines r.plain

@[simp] theorem linesOf_bytes (r : Response) : linesOf r.bytes = r.lines :=
  congrArg Prod.snd r.push_bytes

/-- A cut in a response leaves no bare line feed. -/
theorem pendingPair_take (lines : List (List UInt8))
    (hplain : ∀ line ∈ lines, ∀ byte ∈ line, byte ≠ 13 ∧ byte ≠ 10) (n : ℕ) :
    (LineReassembler.new.push ((lines.flatMap (· ++ [13, 10])).take n)).1.pendingPair
      ≠ some 10 := by
  induction lines generalizing n with
  | nil =>
    rw [List.flatMap_nil, List.take_nil]
    decide
  | cons line rest ih =>
    have hline := hplain line List.mem_cons_self
    rw [List.flatMap_cons, List.take_append]
    rcases Nat.lt_or_ge n (line.length + 2) with hlt | hge
    · -- The cut is in the first line.
      have hrest : n - (line ++ [13, 10]).length = 0 := by
        rw [List.length_append, List.length_cons, List.length_singleton]
        omega
      rw [hrest, List.take_zero, List.append_nil, List.take_append]
      have hbody (b : UInt8) (hb : b ∈ line.take n) := hline b (List.mem_of_mem_take hb)
      have hpending := (LineReassembler.push_plain (r := LineReassembler.new) hbody).2.2 (.inl rfl)
      rw [LineReassembler.push_append]
      dsimp only
      have htail : ([13, 10] : List UInt8).take (n - line.length) = []
          ∨ ([13, 10] : List UInt8).take (n - line.length) = [13] := by
        rcases Nat.lt_or_ge line.length n with h | h
        · right
          rw [show n - line.length = 1 by omega]
          rfl
        · left
          rw [show n - line.length = 0 by omega]
          rfl
      rcases htail with htail | htail
      · rw [htail, LineReassembler.push, hpending]
        decide
      · rw [htail, LineReassembler.push, LineReassembler.push]
        unfold LineReassembler.feed
        rw [hpending]
        exact fun h => absurd (show some (13 : UInt8) = some 10 from h) (by decide)
    · have hall : n = (line ++ [13, 10]).length + (n - (line ++ [13, 10]).length) := by
        rw [List.length_append, List.length_cons, List.length_singleton]
        omega
      rw [List.take_of_length_le (by rw [hall]; exact Nat.le_add_right _ _),
        LineReassembler.push_append, push_line hline]
      exact ih (fun l hl => hplain l (List.mem_cons_of_mem _ hl)) _

/-- What a response puts on the wire does not begin with a line feed or end in a bare one. -/
theorem plain_take (r : Response) (n : ℕ) : Plain (r.bytes.take n) := by
  refine ⟨?_, pendingPair_take r.lines r.plain n⟩
  obtain ⟨lines, hne, hplain⟩ := r
  intro hhead
  cases n with
  | zero => exact nomatch hhead
  | succ n =>
    cases lines with
    | nil => exact hne rfl
    | cons line rest =>
      cases line with
      | nil => exact nomatch hhead
      | cons byte body =>
        have hbyte := (hplain _ List.mem_cons_self byte List.mem_cons_self).2
        exact hbyte (Option.some.inj hhead)

theorem bytes_length_pos (r : Response) : 0 < r.bytes.length := by
  obtain ⟨lines, hne, hplain⟩ := r
  cases lines with
  | nil => exact absurd rfl hne
  | cons line rest =>
    unfold bytes
    rw [List.flatMap_cons, List.length_append, List.length_append, List.length_cons]
    omega

end Response

end Galdr.Comms.UsbTx
