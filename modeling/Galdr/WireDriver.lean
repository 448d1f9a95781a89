import Galdr.DispatchLog
import Galdr.HostCore

/-!
# What the driver of the host puts on the wire

The driver carries out the effects of the core. Lines and real-time bytes wait
in queues of their own; the transport accepts as many bytes of a write as it
likes, and a command or a poll may overtake a write at any time. A cursor
remembers how much of the write was accepted, and the real-time bytes go first
whenever there are any.

A line is therefore written once, in order and to its end, or dropped where it
stands. A real-time byte does not wait for the end of a line: it may fall
between any two of its bytes, which is what an out-of-band byte is for.
-/

namespace Galdr.Host.Engine

open DispatchLog

/-! ## The driver -/

/-- Why the driver gave up. -/
inductive TransportError
  | closed
  | unresponsive
  | io (message : String)
  deriving DecidableEq, Repr

/-- A write under way: its bytes, and how many of them the transport has accepted. -/
structure InFlight where
  /-- The bytes. -/
  bytes : List UInt8
  /-- How many were accepted. -/
  cursor : ℕ
  deriving DecidableEq

/-- What the transport has not accepted yet. -/
def InFlight.remaining (w : InFlight) : List UInt8 := w.bytes.drop w.cursor

/-- The transport accepted some more; a write that is through is retired. -/
def InFlight.advance (w : InFlight) (n : ℕ) : Option InFlight :=
  if w.cursor + n ≥ w.bytes.length then none else some ⟨w.bytes, w.cursor + n⟩

/-- The queues of the driver. -/
structure Driver where
  /-- The real-time bytes. -/
  realtimeOut : List UInt8
  /-- The lines, the oldest first. -/
  lineOut : List Line
  /-- The real-time bytes being written. -/
  realtimeInFlight : Option InFlight
  /-- The line being written. -/
  lineInFlight : Option InFlight
  deriving DecidableEq

/-- What became of an attempt to write, or to wait. -/
inductive FlushOutcome
  | proceed
  | writeFailed (error : TransportError)
  | disconnect
  deriving DecidableEq

/-- What the driver waits for. An effect list is what the core answered. -/
inductive Input
  /-- A command other than the one that disconnects. -/
  | command (effects : List Effect)
  /-- That one, or no one left to send any. -/
  | hangUp
  /-- The status poll is due. -/
  | tick (effects : List Effect)
  /-- A chunk was read. -/
  | inbound (effects : List Effect)
  /-- The other side has closed. -/
  | endOfStream
  /-- A read failed. -/
  | readError (error : TransportError)
  /-- The transport accepted a count of bytes. -/
  | wrote (n : ℕ)
  /-- A write failed. -/
  | writeError (error : TransportError)
  /-- A write was not taken up in time. -/
  | stalled
  /-- Nothing was read for too long. -/
  | silent
  /-- The last flush wrote a count of bytes, and the core was told that the link is down. -/
  | teardown (flushed : ℕ) (effects : List Effect)

/-- The two kinds of bytes on the wire. -/
inductive Channel
  | realtime
  | line
  deriving DecidableEq, Repr

/-- A write the transport accepted: how many bytes it says it took, and the bytes. -/
structure Write where
  /-- Whose bytes they are. -/
  channel : Channel
  /-- The count. -/
  count : ℕ
  /-- The bytes. -/
  bytes : List UInt8

/-- What one wait of the driver came to. -/
structure Turnout where
  /-- The queues. -/
  driver : Driver
  /-- Whether the loop goes on. -/
  outcome : FlushOutcome
  /-- What was written. -/
  wrote : Option Write
  /-- The effects that were carried out. -/
  effects : List Effect

namespace Driver

/-- Nothing to write. -/
def new : Driver := ⟨[], [], none, none⟩

/-- One effect. The other ones only tell the user. -/
def applyEffect (d : Driver) : Effect → Driver
  | .writeRealtime bytes => { d with realtimeOut := d.realtimeOut ++ bytes }
  | .writeLine bytes => { d with lineOut := d.lineOut ++ [bytes] }
  | .abortQueued => { d with lineOut := [], lineInFlight := none }
  | .stateChanged _ | .response _ | .progress _ _ _ | .fault _ => d

/-- The effects of the core, one after the other. -/
def applyEffects (d : Driver) (effects : List Effect) : Driver := effects.foldl applyEffect d

/-- The real-time bytes become a write, where none is under way. -/
def adoptRealtime (d : Driver) : Driver :=
  match d.realtimeInFlight, d.realtimeOut with
  | none, _ :: _ => { d with realtimeOut := [], realtimeInFlight := some ⟨d.realtimeOut, 0⟩ }
  | _, _ => d

/-- The oldest line becomes a write, where none is under way. -/
def adoptLine (d : Driver) : Driver :=
  match d.lineInFlight, d.lineOut with
  | none, line :: rest => { d with lineOut := rest, lineInFlight := some ⟨line, 0⟩ }
  | _, _ => d

/-- Feed the answer of the core. -/
def handle (d : Driver) (effects : List Effect) : Turnout :=
  ⟨d.applyEffects effects, .proceed, none, effects⟩

/-- Nothing is written or carried out. -/
def leave (d : Driver) (outcome : FlushOutcome) : Turnout := ⟨d, outcome, none, []⟩

/-- Write the real-time bytes, against the commands. -/
def flushRealtime (d : Driver) (w : InFlight) : Input → Turnout
  | .command effects => d.handle effects
  | .hangUp => d.leave .disconnect
  | .stalled => d.leave (.writeFailed .unresponsive)
  | .wrote 0 => d.leave (.writeFailed .closed)
  | .wrote n => ⟨{ d with realtimeInFlight := w.advance n }, .proceed,
      some ⟨.realtime, n, w.remaining.take n⟩, []⟩
  | .writeError error => d.leave (.writeFailed error)
  -- these are not waited for here
  | .tick _ | .inbound _ | .endOfStream | .readError _ | .silent | .teardown _ _ =>
    d.leave .proceed

/-- Write the line, against the commands and the poll. -/
def writePendingLine (d : Driver) (w : InFlight) : Input → Turnout
  | .command effects | .tick effects => d.handle effects
  | .hangUp => d.leave .disconnect
  | .stalled => d.leave (.writeFailed .unresponsive)
  | .wrote 0 => d.leave (.writeFailed .closed)
  | .wrote n => ⟨{ d with lineInFlight := w.advance n }, .proceed,
      some ⟨.line, n, w.remaining.take n⟩, []⟩
  | .writeError error => d.leave (.writeFailed error)
  | .inbound _ | .endOfStream | .readError _ | .silent | .teardown _ _ => d.leave .proceed

/-- Nothing to write: wait. -/
def wait (d : Driver) : Input → Turnout
  | .command effects | .tick effects | .inbound effects => d.handle effects
  | .hangUp | .endOfStream => d.leave .disconnect
  | .readError error => d.leave (.writeFailed error)
  | .wrote _ | .writeError _ | .stalled | .silent | .teardown _ _ => d.leave .proceed

/-- One round of the loop, up to what it waits for. The silence of the other side is looked at
between any two waits here; the loop does so between two rounds. -/
def round (d : Driver) : Input → Turnout
  | .silent => d.leave (.writeFailed .unresponsive)
  | input =>
    let d := d.adoptRealtime
    match d.realtimeInFlight with
    | some w => d.flushRealtime w input
    | none =>
      let d := d.adoptLine
      match d.lineInFlight with
      | some w => d.writePendingLine w input
      | none => d.wait input

/-- The real-time bytes that are not on the wire yet. -/
def realtime (d : Driver) : List UInt8 :=
  (d.realtimeInFlight.elim [] InFlight.remaining) ++ d.realtimeOut

/-- The lines that are not on the wire yet, or what is left of them. -/
def lines (d : Driver) : List Line :=
  (d.lineInFlight.elim [] fun w => [w.remaining]) ++ d.lineOut

/-- After the loop: a last flush of the real-time bytes, of which the transport may take any
part, and no line. -/
def teardown (d : Driver) (flushed : ℕ) (effects : List Effect) : Turnout :=
  ⟨{ d with realtimeInFlight := none, realtimeOut := [] }.applyEffects effects, .disconnect,
    some ⟨.realtime, flushed, d.realtime.take flushed⟩, effects⟩

end Driver

/-! ## Runs -/

/-- Where the driver is in its life. -/
inductive Status
  | looping
  | leaving (reason : Option TransportError)
  | gone (reason : Option TransportError)
  deriving DecidableEq

/-- A run so far: the driver, the wire, every effect that was carried out, and what became of
the lines. -/
structure Record where
  /-- The queues. -/
  driver : Driver
  /-- Whether the loop goes on. -/
  status : Status
  /-- The bytes on the wire, each with its kind. -/
  wire : List (Channel × UInt8)
  /-- The effects. -/
  effects : List Effect
  /-- The lines. -/
  log : Log UInt8

/-- The lines an effect releases and drops. -/
def follow (l : Log UInt8) : Effect → Log UInt8
  | .writeLine bytes => l.release bytes
  | .abortQueued => l.dropWaiting
  | .writeRealtime _ | .stateChanged _ | .response _ | .progress _ _ _ | .fault _ => l

/-- A write of line bytes serves the line at the front. -/
def served (l : Log UInt8) : Option Write → Log UInt8
  | some ⟨.line, n, _⟩ => l.serve n
  | some ⟨.realtime, _, _⟩ | none => l

/-- A write, on the wire. -/
def wired : Option Write → List (Channel × UInt8)
  | some w => w.bytes.map (w.channel, ·)
  | none => []

namespace Record

/-- What a wait came to, written down. -/
def note (r : Record) (t : Turnout) (status : Status) : Record where
  driver := t.driver
  status := status
  wire := r.wire ++ wired t.wrote
  effects := r.effects ++ t.effects
  log := t.effects.foldl follow (served r.log t.wrote)

/-- A driver that was just started: the link is announced and the board is asked. -/
def start (effects : List Effect) : Record where
  driver := Driver.new.applyEffects effects
  status := .looping
  wire := []
  effects := effects
  log := effects.foldl follow .empty

/-- The driver meets an input. -/
def step (r : Record) (input : Input) : Record :=
  match r.status with
  | .looping =>
    let t := r.driver.round input
    match t.outcome with
    | .proceed => r.note t .looping
    | .writeFailed error => r.note t (.leaving (some error))
    | .disconnect => r.note t (.leaving none)
  | .leaving reason =>
    match input with
    | .teardown flushed effects => r.note (r.driver.teardown flushed effects) (.gone reason)
    | _ => r
  | .gone _ => r

/-- A run of the driver. -/
def run (effects : List Effect) (inputs : List Input) : Record :=
  inputs.foldl step (start effects)

end Record

/-- The bytes of one kind. -/
def on (channel : Channel) (wire : List (Channel × UInt8)) : List UInt8 :=
  (wire.filter (·.1 = channel)).map Prod.snd

/-- The lines that were released. -/
def releasedLines (effects : List Effect) : List Line :=
  effects.filterMap fun
    | .writeLine bytes => some bytes
    | _ => none

/-- The real-time bytes that were asked for. -/
def realtimeBytes (effects : List Effect) : List UInt8 :=
  effects.flatMap fun
    | .writeRealtime bytes => bytes
    | _ => []

/-! ## What the run keeps -/

/-- **The wire, read against the queues**: the line bytes are the pieces of the released lines
in their order, what waits is what the queues hold, and the real-time bytes are those asked
for, as far as they went. -/
structure Ordered (r : Record) : Prop where
  /-- Every released line has its entry. -/
  released : r.log.items = releasedLines r.effects
  /-- The line bytes are what was served. -/
  lines : on .line r.wire = r.log.output
  /-- What waits is in the queue. -/
  queue : r.log.queue = r.driver.lines
  /-- The real-time bytes, in order, are on the wire or in the queue. -/
  realtime : ∃ rest, on .realtime r.wire ++ rest = realtimeBytes r.effects
    ∧ ((∀ reason, r.status ≠ .gone reason) → rest = r.driver.realtime)

namespace Driver

theorem lines_adoptLine (d : Driver) : d.adoptLine.lines = d.lines := by
  unfold adoptLine
  split
  case h_1 line rest hflight hout =>
    unfold lines
    rw [hflight, hout]
    rfl
  case h_2 => rfl

theorem realtime_adoptLine (d : Driver) : d.adoptLine.realtime = d.realtime := by
  unfold adoptLine
  split <;> rfl

theorem realtime_adoptRealtime (d : Driver) : d.adoptRealtime.realtime = d.realtime := by
  unfold adoptRealtime
  split
  case h_1 hflight hout =>
    unfold realtime
    rw [hflight]
    exact List.append_nil _
  case h_2 => rfl

theorem lines_adoptRealtime (d : Driver) : d.adoptRealtime.lines = d.lines := by
  unfold adoptRealtime
  split <;> rfl

/-- Where no real-time bytes become a write, there are none. -/
theorem realtime_eq_nil {d : Driver} (h : d.adoptRealtime.realtimeInFlight = none) :
    d.realtime = [] := by
  unfold adoptRealtime at h
  split at h
  case h_1 => exact absurd h (Option.some_ne_none _)
  case h_2 hne =>
    unfold realtime
    rw [h]
    cases hout : d.realtimeOut with
    | nil => rfl
    | cons b bs => exact absurd hout (hne b bs h)

theorem lines_applyEffect (d : Driver) (e : Effect) :
    (d.applyEffect e).lines = match e with
      | .writeLine bytes => d.lines ++ [bytes]
      | .abortQueued => []
      | _ => d.lines := by
  cases e with
  | writeLine bytes => exact (List.append_assoc ..).symm
  | _ => rfl

theorem realtime_applyEffects (d : Driver) (effects : List Effect) :
    (d.applyEffects effects).realtime = d.realtime ++ realtimeBytes effects := by
  induction effects generalizing d with
  | nil => exact (List.append_nil _).symm
  | cons e effects ih =>
    have hhead : (d.applyEffect e).realtime = d.realtime ++ realtimeBytes [e] := by
      cases e with
      | writeRealtime bytes =>
        show _ ++ (_ ++ bytes) = _ ++ _ ++ (bytes ++ [])
        rw [List.append_nil, List.append_assoc]
        rfl
      | _ => exact (List.append_nil _).symm
    show ((d.applyEffect e).applyEffects effects).realtime = _
    rw [ih, hhead, List.append_assoc]
    exact congrArg (d.realtime ++ ·) List.flatMap_append.symm

/-- Following the effects keeps the queue of the log that of the driver. -/
theorem queue_applyEffects {d : Driver} {l : Log UInt8} (h : l.queue = d.lines)
    (effects : List Effect) :
    (effects.foldl follow l).queue = (d.applyEffects effects).lines := by
  induction effects generalizing d l with
  | nil => exact h
  | cons e effects ih =>
    refine @ih (d.applyEffect e) (follow l e) ?_
    rw [lines_applyEffect, ← h]
    cases e with
    | writeLine bytes => exact l.queue_release bytes
    | abortQueued => exact l.queue_dropWaiting
    | _ => rfl

end Driver

theorem items_follow (l : Log UInt8) (effects : List Effect) :
    (effects.foldl follow l).items = l.items ++ releasedLines effects := by
  induction effects generalizing l with
  | nil => exact (List.append_nil _).symm
  | cons e effects ih =>
    rw [List.foldl_cons, ih]
    cases e with
    | writeLine bytes =>
      show (l.release bytes).items ++ _ = l.items ++ (bytes :: _)
      rw [Log.items_release, List.append_assoc]
      rfl
    | abortQueued =>
      show l.dropWaiting.items ++ _ = _
      rw [Log.items_dropWaiting]
      rfl
    | _ => rfl

theorem output_follow (l : Log UInt8) (effects : List Effect) :
    (effects.foldl follow l).output = l.output := by
  induction effects generalizing l with
  | nil => rfl
  | cons e effects ih =>
    rw [List.foldl_cons, ih]
    cases e with
    | writeLine bytes => exact l.output_release bytes
    | abortQueued => exact l.output_dropWaiting
    | _ => rfl

theorem extends_follow (l : Log UInt8) (effects : List Effect) :
    l.Extends (effects.foldl follow l) := by
  induction effects generalizing l with
  | nil => exact .refl l
  | cons e effects ih =>
    refine Log.Extends.trans ?_ (ih (follow l e))
    cases e with
    | writeLine bytes => exact l.extends_release bytes
    | abortQueued => exact l.extends_dropWaiting
    | _ => exact .refl l

theorem on_append (channel : Channel) (wire wire' : List (Channel × UInt8)) :
    on channel (wire ++ wire') = on channel wire ++ on channel wire' := by
  unfold on
  rw [List.filter_append, List.map_append]

theorem on_map_self (channel : Channel) (bytes : List UInt8) :
    on channel (bytes.map (channel, ·)) = bytes := by
  induction bytes with
  | nil => rfl
  | cons b bytes ih =>
    unfold on at ih ⊢
    rw [List.map_cons, List.filter_cons, if_pos (decide_eq_true rfl), List.map_cons, ih]

theorem on_map_ne {channel other : Channel} (h : other ≠ channel) (bytes : List UInt8) :
    on channel (bytes.map (other, ·)) = [] := by
  unfold on
  rw [List.filter_eq_nil_iff.2, List.map_nil]
  exact List.forall_mem_map.2 fun b _ heq => h (of_decide_eq_true heq)

/-- What is left of a write the transport took some of. -/
theorem InFlight.remaining_advance (w : InFlight) (n : ℕ) :
    (w.advance n).elim [] InFlight.remaining = w.remaining.drop n := by
  unfold InFlight.advance InFlight.remaining
  by_cases hall : w.cursor + n ≥ w.bytes.length
  · rw [if_pos hall, List.drop_drop, List.drop_of_length_le hall]
    rfl
  · rw [if_neg hall, List.drop_drop]
    rfl

/-- **What one wait comes to**: effects are carried out, or real-time bytes are written, or bytes
of the front line are, and that only where no real-time byte waits; or nothing happens. -/
inductive Comes (d : Driver) : Turnout → Prop
  | effects {d' : Driver} (outcome : FlushOutcome) (effects : List Effect)
      (hlines : d'.lines = d.lines) (hrealtime : d'.realtime = d.realtime) :
      Comes d ⟨d'.applyEffects effects, outcome, none, effects⟩
  | realtime {d' : Driver} (n : ℕ) {piece : List UInt8} (hlines : d'.lines = d.lines)
      (hrealtime : d.realtime = piece ++ d'.realtime) :
      Comes d ⟨d', .proceed, some ⟨.realtime, n, piece⟩, []⟩
  | line {d' : Driver} {front : Line} {behind : List Line} (n : ℕ)
      (hfront : d.lines = front :: behind)
      (hlines : d'.lines = if front.length ≤ n then behind else front.drop n :: behind)
      (hquiet : d.realtime = []) (hrealtime : d'.realtime = []) :
      Comes d ⟨d', .proceed, some ⟨.line, n, front.take n⟩, []⟩

theorem comes_leave {d d' : Driver} (hlines : d'.lines = d.lines)
    (hrealtime : d'.realtime = d.realtime) (outcome : FlushOutcome) :
    Comes d (d'.leave outcome) :=
  @Comes.effects d d' outcome [] hlines hrealtime

theorem comes_handle {d d' : Driver} (hlines : d'.lines = d.lines)
    (hrealtime : d'.realtime = d.realtime) (effects : List Effect) :
    Comes d (d'.handle effects) :=
  .effects .proceed effects hlines hrealtime

/-- The flush, from where a write is under way. -/
theorem comes_flushRealtime {d d' : Driver} {w : InFlight} (hw : d'.realtimeInFlight = some w)
    (hlines : d'.lines = d.lines) (hrealtime : d'.realtime = d.realtime) (input : Input) :
    Comes d (d'.flushRealtime w input) := by
  cases input with
  | command effects => exact comes_handle hlines hrealtime effects
  | wrote n =>
    cases n with
    | zero => exact comes_leave hlines hrealtime _
    | succ n =>
      refine .realtime (n + 1) hlines ?_
      show _ = _ ++ ((w.advance (n + 1)).elim [] InFlight.remaining ++ d'.realtimeOut)
      rw [InFlight.remaining_advance, ← List.append_assoc, List.take_append_drop, ← hrealtime]
      unfold Driver.realtime
      rw [hw]
      rfl
  | _ => exact comes_leave hlines hrealtime _

/-- The line, from where no real-time byte waits. -/
theorem comes_writePendingLine {d d' : Driver} {w : InFlight} (hw : d'.lineInFlight = some w)
    (hlines : d'.lines = d.lines) (hrealtime : d'.realtime = d.realtime) (hquiet : d.realtime = [])
    (input : Input) : Comes d (d'.writePendingLine w input) := by
  cases input with
  | command effects => exact comes_handle hlines hrealtime effects
  | tick effects => exact comes_handle hlines hrealtime effects
  | wrote n =>
    cases n with
    | zero => exact comes_leave hlines hrealtime _
    | succ n =>
      have hfront : d.lines = w.remaining :: d'.lineOut := by
        rw [← hlines]
        unfold Driver.lines
        rw [hw]
        rfl
      refine .line (n + 1) hfront ?_ hquiet (hrealtime.trans hquiet)
      have hlength : w.remaining.length ≤ n + 1 ↔ w.cursor + (n + 1) ≥ w.bytes.length := by
        unfold InFlight.remaining
        rw [List.length_drop]
        exact Nat.sub_le_iff_le_add'
      show ((w.advance (n + 1)).elim [] fun w => [w.remaining]) ++ d'.lineOut = _
      unfold InFlight.advance
      by_cases hall : w.cursor + (n + 1) ≥ w.bytes.length
      · rw [if_pos hall, if_pos (hlength.2 hall)]
        rfl
      · rw [if_neg hall, if_neg fun hle => hall (hlength.1 hle)]
        show [w.bytes.drop (w.cursor + (n + 1))] ++ _ = (w.bytes.drop w.cursor).drop (n + 1) :: _
        rw [List.drop_drop]
        rfl
  | _ => exact comes_leave hlines hrealtime _

/-- **One round of the loop**, whatever it meets. -/
theorem Driver.round_comes (d : Driver) (input : Input) : Comes d (d.round input) := by
  have hlines : d.adoptRealtime.adoptLine.lines = d.lines :=
    (lines_adoptLine _).trans (lines_adoptRealtime d)
  have hrealtime : d.adoptRealtime.adoptLine.realtime = d.realtime :=
    (realtime_adoptLine _).trans (realtime_adoptRealtime d)
  unfold Driver.round
  split
  case h_1 => exact comes_leave rfl rfl _
  case h_2 =>
    dsimp only
    split
    case h_1 w hw =>
      exact comes_flushRealtime hw (lines_adoptRealtime d) (realtime_adoptRealtime d) input
    case h_2 hnone =>
      have hquiet : d.realtime = [] := realtime_eq_nil hnone
      split
      case h_1 w hw => exact comes_writePendingLine hw hlines hrealtime hquiet input
      case h_2 =>
        cases input with
        | command effects | tick effects | inbound effects =>
          exact comes_handle hlines hrealtime effects
        | _ => exact comes_leave hlines hrealtime _

/-! ## The run -/

/-- A wait, written down, keeps the wire in order. -/
theorem Ordered.note {r : Record} {t : Turnout} {status : Status} (h : Ordered r)
    (hlooping : ∀ reason, r.status ≠ .gone reason) (hcomes : Comes r.driver t) :
    Ordered (r.note t status) := by
  obtain ⟨rest, hrest, hqueued⟩ := h.realtime
  have hrest : on .realtime r.wire ++ r.driver.realtime = realtimeBytes r.effects :=
    hqueued hlooping ▸ hrest
  cases hcomes with
  | @effects d' outcome effects hlines hrealtime =>
    refine ⟨?_, ?_, ?_, _, ?_, fun _ => rfl⟩
    · show (effects.foldl follow r.log).items = releasedLines (r.effects ++ effects)
      rw [items_follow, h.released]
      exact List.filterMap_append.symm
    · show on .line (r.wire ++ []) = (effects.foldl follow r.log).output
      rw [output_follow, List.append_nil, h.lines]
    · exact Driver.queue_applyEffects (h.queue.trans hlines.symm) effects
    · show on .realtime (r.wire ++ []) ++ (d'.applyEffects effects).realtime
        = realtimeBytes (r.effects ++ effects)
      rw [Driver.realtime_applyEffects, List.append_nil, ← List.append_assoc, hrealtime, hrest]
      exact List.flatMap_append.symm
  | @realtime d' n piece hlines hrealtime =>
    refine ⟨?_, ?_, h.queue.trans hlines.symm, _, ?_, fun _ => rfl⟩
    · show r.log.items = releasedLines (r.effects ++ [])
      rw [List.append_nil, h.released]
    · show on .line (r.wire ++ piece.map (Channel.realtime, ·)) = r.log.output
      rw [on_append, on_map_ne Channel.noConfusion, List.append_nil, h.lines]
    · show on .realtime (r.wire ++ piece.map (Channel.realtime, ·)) ++ d'.realtime
        = realtimeBytes (r.effects ++ [])
      rw [on_append, on_map_self, List.append_assoc, ← hrealtime, List.append_nil, hrest]
  | @line d' front behind n hfront hlines hquiet hrealtime =>
    have hqueue : r.log.queue = front :: behind := h.queue.trans hfront
    refine ⟨?_, ?_, (Log.queue_serve hqueue n).trans hlines.symm, _, ?_, fun _ => rfl⟩
    · show (r.log.serve n).items = releasedLines (r.effects ++ [])
      rw [List.append_nil, Log.items_serve, h.released]
    · show on .line (r.wire ++ (front.take n).map (Channel.line, ·)) = (r.log.serve n).output
      rw [on_append, on_map_self, Log.output_serve, hqueue, h.lines]
      rfl
    · show on .realtime (r.wire ++ (front.take n).map (Channel.line, ·)) ++ d'.realtime
        = realtimeBytes (r.effects ++ [])
      rw [hquiet, List.append_nil] at hrest
      rw [on_append, on_map_ne Channel.noConfusion, List.append_nil, hrealtime, List.append_nil,
        List.append_nil, hrest]

/-- The last flush, written down. -/
theorem Ordered.teardown {r : Record} {reason : Option TransportError} (h : Ordered r)
    (hlooping : ∀ reason, r.status ≠ .gone reason) (flushed : ℕ) (effects : List Effect) :
    Ordered (r.note (r.driver.teardown flushed effects) (.gone reason)) := by
  obtain ⟨rest, hrest, hqueued⟩ := h.realtime
  have hrest : on .realtime r.wire ++ r.driver.realtime = realtimeBytes r.effects :=
    hqueued hlooping ▸ hrest
  refine ⟨?_, ?_, ?_, r.driver.realtime.drop flushed ++ realtimeBytes effects, ?_,
    fun hne => absurd rfl (hne reason)⟩
  · show (effects.foldl follow r.log).items = releasedLines (r.effects ++ effects)
    rw [items_follow, h.released]
    exact List.filterMap_append.symm
  · show on .line (r.wire ++ (r.driver.realtime.take flushed).map (Channel.realtime, ·))
      = (effects.foldl follow r.log).output
    rw [output_follow, on_append, on_map_ne Channel.noConfusion, List.append_nil, h.lines]
  · exact @Driver.queue_applyEffects
      { r.driver with realtimeInFlight := none, realtimeOut := [] } r.log h.queue effects
  · show on .realtime (r.wire ++ (r.driver.realtime.take flushed).map (Channel.realtime, ·)) ++ _
      = realtimeBytes (r.effects ++ effects)
    rw [on_append, on_map_self, ← List.append_assoc, List.append_assoc (on _ _),
      List.take_append_drop, hrest]
    exact List.flatMap_append.symm

namespace Record

/-- What a step does: it writes down a round of the loop, or the last flush, or nothing. -/
theorem step_cases (r : Record) (input : Input) :
    (r.status = .looping ∧ ∃ status, r.step input = r.note (r.driver.round input) status)
      ∨ (∃ reason flushed effects, r.status = .leaving reason
        ∧ r.step input = r.note (r.driver.teardown flushed effects) (.gone reason))
      ∨ r.step input = r := by
  unfold step
  cases hstatus : r.status with
  | looping =>
    refine Or.inl ⟨rfl, ?_⟩
    dsimp only
    cases (r.driver.round input).outcome with
    | proceed | writeFailed | disconnect => exact ⟨_, rfl⟩
  | leaving reason =>
    cases input with
    | teardown flushed effects => exact Or.inr (Or.inl ⟨reason, flushed, effects, rfl, rfl⟩)
    | _ => exact Or.inr (Or.inr rfl)
  | gone reason => exact Or.inr (Or.inr rfl)

theorem ordered_step {r : Record} (h : Ordered r) (input : Input) : Ordered (r.step input) := by
  obtain ⟨hstatus, status, hstep⟩ | ⟨reason, flushed, effects, hstatus, hstep⟩ | hstep :=
    step_cases r input
  · rw [hstep]
    refine h.note (fun reason => ?_) (r.driver.round_comes input)
    rw [hstatus]
    exact Status.noConfusion
  · rw [hstep]
    refine h.teardown (fun reason => ?_) flushed effects
    rw [hstatus]
    exact Status.noConfusion
  · rwa [hstep]

theorem ordered_start (effects : List Effect) : Ordered (start effects) where
  released := items_follow .empty effects
  lines := (output_follow .empty effects).symm
  queue := @Driver.queue_applyEffects .new .empty rfl effects
  realtime := ⟨_, (Driver.realtime_applyEffects .new effects).symm ▸ rfl, fun _ => rfl⟩

theorem ordered_run (effects : List Effect) (inputs : List Input) :
    Ordered (run effects inputs) := by
  unfold run
  generalize hstart : start effects = r
  have h : Ordered r := hstart ▸ ordered_start effects
  clear hstart
  induction inputs generalizing r with
  | nil => exact h
  | cons input inputs ih => exact ih _ (ordered_step h input)

/-- What a wait comes to only adds to the log. -/
theorem extends_note (r : Record) (t : Turnout) (status : Status) :
    r.log.Extends (r.note t status).log := by
  refine Log.Extends.trans ?_ (extends_follow (served r.log t.wrote) t.effects)
  unfold served
  split
  case h_1 => exact r.log.extends_serve _
  case h_2 => exact .refl _
  case h_3 => exact .refl _

theorem extends_step (r : Record) (input : Input) : r.log.Extends (r.step input).log := by
  obtain ⟨-, status, hstep⟩ | ⟨reason, flushed, effects, -, hstep⟩ | hstep := step_cases r input
  · exact hstep ▸ extends_note r _ status
  · exact hstep ▸ extends_note r _ (.gone reason)
  · exact hstep.symm ▸ .refl _

theorem extends_foldl (r : Record) (inputs : List Input) :
    r.log.Extends (inputs.foldl step r).log := by
  induction inputs generalizing r with
  | nil => exact .refl _
  | cons input inputs ih => exact (extends_step r input).trans (ih (r.step input))

/-- Where a step writes a line byte, no real-time byte was waiting. -/
theorem quiet_of_line {r : Record} {input : Input}
    (h : on .line (r.step input).wire ≠ on .line r.wire) : r.driver.realtime = [] := by
  obtain ⟨-, status, hstep⟩ | ⟨reason, flushed, effects, -, hstep⟩ | hstep := step_cases r input
  · rw [hstep] at h
    have hcomes := r.driver.round_comes input
    generalize r.driver.round input = t at h hcomes
    have hwire : on .line (r.note t status).wire = on .line r.wire ++ on .line (wired t.wrote) :=
      on_append ..
    rw [hwire] at h
    cases hcomes with
    | effects => exact absurd (List.append_nil _) h
    | @realtime d' n piece =>
      refine absurd ?_ h
      show on .line r.wire ++ on .line (piece.map (Channel.realtime, ·)) = _
      rw [on_map_ne Channel.noConfusion, List.append_nil]
    | line n hfront hlines hquiet hrealtime => exact hquiet
  · rw [hstep] at h
    refine absurd ?_ h
    show on .line (r.wire ++ (r.driver.realtime.take flushed).map (Channel.realtime, ·)) = _
    rw [on_append, on_map_ne Channel.noConfusion, List.append_nil]
  · exact absurd (by rw [hstep]) h

end Record

/-- **The order of the wire.** In every run, whatever the core answers, however the transport
cuts the writes and whatever overtakes them: the line bytes are the pieces of the released
lines, each line once and in its order, all of it where it was not dropped; the real-time
bytes are those that were asked for, once and in order. Whatever comes later, a line that was
dropped stays where it was, and no line byte is written while a real-time byte waits. -/
theorem wire_in_order (effects : List Effect) (inputs more : List Input) (input : Input) :
    Ordered (Record.run effects inputs)
      ∧ (Record.run effects inputs).log.Extends (Record.run effects (inputs ++ more)).log
      ∧ (on .line ((Record.run effects inputs).step input).wire
          ≠ on .line (Record.run effects inputs).wire →
        (Record.run effects inputs).driver.realtime = []) := by
  refine ⟨Record.ordered_run effects inputs, ?_, Record.quiet_of_line⟩
  unfold Record.run
  rw [List.foldl_append]
  exact Record.extends_foldl _ more

/-- The real-time bytes fall between lines: what was written of the lines before each of them
ends with a line feed. -/
def BetweenLines (wire : List (Channel × UInt8)) : Prop :=
  ∀ (before after : List (Channel × UInt8)) (byte : UInt8),
    wire = before ++ (Channel.realtime, byte) :: after →
      on .line before = [] ∨ (on .line before).getLast? = some 10

/-- A poll overtakes a line of which a byte was accepted. -/
theorem not_betweenLines : ¬ ∀ (effects : List Effect) (inputs : List Input),
    BetweenLines (Record.run effects inputs).wire := by
  intro h
  have hwire := h [] [.command [.writeLine [71, 10]], .wrote 1, .tick [.writeRealtime [63]],
    .wrote 1, .wrote 1] [(.line, 71)] [(.line, 10)] 63 rfl
  exact hwire.elim (by decide) (by decide)

end Galdr.Host.Engine
