import Galdr.HostSteps
import Galdr.Runs

/-!
# The host, the firmware and the links between them

A session is a host core, a firmware with a receive buffer, and a first-in
first-out link in each direction. The firmware takes lines from its link into its
buffer, consumes them in order and answers each of them once. The reset bytes
travel between the lines; where the firmware meets one it may discard its buffer,
and may send a banner.

Every line on its way carries what the host does not see: the program it belongs
to, and whether the host has emptied its window since it was sent. A line sent
before that is *stale*. The core cannot tell the answer to a stale line from an
answer to a later one, so that what it counts is what is on its way
(`Session.Matched`) only as long as it sends no line while a stale one is
unanswered.
-/

namespace Galdr.Host

open Runs ProtocolCore

/-- A line on its way, and what it is to the host. -/
structure Sent where
  /-- Its length, terminator included. -/
  len : ℕ
  /-- The program it belongs to; a console line has none. -/
  owner : Option ℕ
  /-- The host has not emptied its window since it was sent. -/
  fresh : Bool
  deriving DecidableEq

/-- The kind the core keeps of a line. -/
def Sent.kind (s : Sent) : InflightKind := if s.owner.isSome then .program else .other

/-- The line, with the window emptied since. -/
def Sent.expire (s : Sent) : Sent := { s with fresh := false }

/-- What travels to the firmware: a line, or one of the two reset bytes. -/
inductive WireItem
  | line (s : Sent)
  | reset (cmd : RealtimeCommand)
  deriving DecidableEq

/-- The line of an item. -/
def WireItem.line? : WireItem → Option Sent
  | line s => some s
  | reset _ => none

/-- What travels to the host: the answer to a line, an error code with it or none,
or a response that answers nothing. -/
inductive Reply
  | answer (s : Sent) (code : Option ℕ)
  | push (response : Response)
  deriving DecidableEq

/-- The line a reply answers. -/
def Reply.line? : Reply → Option Sent
  | answer s _ => some s
  | push _ => none

/-- The response the host reads. -/
def Reply.response : Reply → Response
  | answer _ none => .ok
  | answer _ (some code) => .error code
  | push response => response

/-- The host, the firmware's buffer, and the two links. -/
structure Session where
  /-- The host. -/
  core : ProtocolCore
  /-- Sent and not received, the oldest first. -/
  wire : List WireItem
  /-- Received and not consumed, the oldest first. -/
  buffer : List Sent
  /-- Sent by the firmware and not delivered, the oldest first. -/
  replies : List Reply
  /-- How many programs were streamed; the last one is the current one. -/
  streamed : ℕ
  /-- Answers delivered to lines of the current program. -/
  answered : ℕ
  deriving DecidableEq

/-- One step of a session. -/
inductive Action
  /-- An input of the host that is not a response. -/
  | host (ev : Event)
  /-- The firmware takes the next item of its link. At a reset byte it may discard
  its buffer, and may send a banner. -/
  | receive (discard : Bool) (banner : Option (List Char))
  /-- The firmware consumes its oldest line and answers it. -/
  | answer (code : Option ℕ)
  /-- The firmware sends a response that answers nothing. -/
  | push (response : Response)
  /-- The host reads the next reply. -/
  | deliver
  deriving DecidableEq

namespace Session

/-- A session begins with nothing on its way. -/
def start (pinned : Option ℕ) : Session :=
  ⟨.start pinned, [], [], [], 0, 0⟩

/-- The lines on their way, the oldest first: those whose answer is on its way, those
in the buffer, and those on the wire. -/
def outstanding (s : Session) : List Sent :=
  s.replies.filterMap Reply.line? ++ (s.buffer ++ s.wire.filterMap WireItem.line?)

/-- **The bytes sent and not consumed.** -/
def unconsumed (s : Session) : ℕ :=
  ((s.buffer ++ s.wire.filterMap WireItem.line?).map Sent.len).sum

/-- Every line on its way becomes stale. -/
def expire (s : Session) : Session :=
  { s with
    wire := s.wire.map fun item => match item with
      | .line s => .line s.expire
      | .reset cmd => .reset cmd
    buffer := s.buffer.map Sent.expire
    replies := s.replies.map fun reply => match reply with
      | .answer s code => .answer s.expire code
      | .push response => .push response }

/-- The core has moved, and its lines join the wire. -/
def sends (s : Session) (t : Turn) (owner : Option ℕ) : Session :=
  { s with
    core := t.core
    wire := s.wire ++ (writtenLines t.out).map fun line => .line ⟨line.length, owner, true⟩ }

/-- An input of the host. -/
def hostStep (s : Session) (ev : Event) : Session :=
  let t := s.core.handle ev
  match ev with
  | .streamProgram _ =>
    { s.sends t (some (s.streamed + 1)) with streamed := s.streamed + 1, answered := 0 }
  | .realtime cmd =>
    if cmd.resets then
      let s := (s.sends t none).expire
      { s with wire := s.wire ++ [.reset cmd] }
    else s.sends t none
  | _ => s.sends t none

/-- The host reads a reply. -/
def deliverStep (s : Session) (reply : Reply) (rest : List Reply) : Session :=
  let t := s.core.handle (.response reply.response)
  let s := { s with replies := rest }.sends t (some s.streamed)
  match reply with
  | .answer line _ =>
    if line.owner = some s.streamed then { s with answered := s.answered + 1 } else s
  | .push (.banner _) => s.expire
  | .push _ => s

/-- One step. -/
def step (s : Session) (action : Action) : Session :=
  match action with
  | .host ev => s.hostStep ev
  | .receive discard banner =>
    match s.wire with
    | [] => s
    | .line line :: rest => { s with wire := rest, buffer := s.buffer ++ [line] }
    | .reset _ :: rest =>
      { s with
        wire := rest
        buffer := if discard then [] else s.buffer
        replies := s.replies ++ (banner.map fun text => .push (.banner text)).toList }
  | .answer code =>
    match s.buffer with
    | [] => s
    | line :: rest => { s with buffer := rest, replies := s.replies ++ [.answer line code] }
  | .push response => { s with replies := s.replies ++ [.push response] }
  | .deliver =>
    match s.replies with
    | [] => s
    | reply :: rest => s.deliverStep reply rest

/-- What a step may be: the inputs of the host are those of a session that stays
connected, and only answers answer. -/
def Legal (action : Action) : Prop :=
  match action with
  | .host .disconnected => False
  | .host (.response _) => False
  | .push response => response.isAnswer = false
  | _ => True

/-- No line is stale. -/
def AllFresh (s : Session) : Prop := ∀ line ∈ s.outstanding, line.fresh = true

instance (s : Session) : Decidable s.AllFresh :=
  inferInstanceAs (Decidable (∀ line ∈ s.outstanding, line.fresh = true))

/-- **The host waits out its resets**: it sends a line of its own accord only when no
line sent before its window was last emptied is still on its way. -/
def Waits (s : Session) (action : Action) : Prop :=
  match action with
  | .host .beginHandshake => s.AllFresh
  | .host (.sendLine _) => s.AllFresh
  | .host (.streamProgram _) => s.AllFresh
  | _ => True

/-- A line ahead of a reset byte is stale. -/
def Ahead (a b : WireItem) : Prop :=
  match b with
  | .reset _ => ∀ line, a.line? = some line → line.fresh = false
  | .line _ => True

/-- **What the core counts is what is on its way**: either no line is stale, and the
lines in flight are those on their way, in order, or every line is stale and the
window is empty. Lines ahead of a reset byte are stale. -/
structure Matched (s : Session) : Prop extends s.core.Counted where
  /-- The lengths in flight. -/
  lens : s.core.flow.inflight = (s.outstanding.filter Sent.fresh).map Sent.len
  /-- The kinds in flight. -/
  kindsOf : s.core.inflightKinds = (s.outstanding.filter Sent.fresh).map Sent.kind
  /-- No line is stale, or every line is. -/
  mode : s.AllFresh ∨ ∀ line ∈ s.outstanding, line.fresh = false
  /-- A buffered line is stale while a reset byte is on the wire. -/
  buffered : ∀ cmd, .reset cmd ∈ s.wire → ∀ line ∈ s.buffer, line.fresh = false
  /-- A line ahead of a reset byte is stale. -/
  ahead : s.wire.Pairwise Ahead

/-! ## What is on its way -/

variable {s : Session}

/-- The lines written, as they go on their way. -/
def sentLines (t : Turn) (owner : Option ℕ) : List Sent :=
  (writtenLines t.out).map fun line => ⟨line.length, owner, true⟩

theorem filterMap_line (lines : List Sent) :
    (lines.map WireItem.line).filterMap WireItem.line? = lines := by
  induction lines with
  | nil => rfl
  | cons line lines ih =>
    show line :: (lines.map WireItem.line).filterMap WireItem.line? = line :: lines
    rw [ih]

theorem wire_sends (s : Session) (t : Turn) (owner : Option ℕ) :
    (s.sends t owner).wire = s.wire ++ (sentLines t owner).map .line := by
  show s.wire ++ _ = _
  rw [sentLines, List.map_map]
  rfl

theorem outstanding_sends (s : Session) (t : Turn) (owner : Option ℕ) :
    (s.sends t owner).outstanding = s.outstanding ++ sentLines t owner := by
  unfold outstanding
  rw [wire_sends, List.filterMap_append, filterMap_line]
  simp [sends]

/-- A step that writes nothing changes the core only. -/
theorem sends_of_quiet {t : Turn} (h : writtenLines t.out = []) (owner : Option ℕ) :
    s.sends t owner = { s with core := t.core } := by
  unfold sends
  rw [h]
  simp

theorem outstanding_expire (s : Session) :
    s.expire.outstanding = s.outstanding.map Sent.expire := by
  unfold outstanding expire
  rw [List.map_append, List.map_append, List.filterMap_map, List.filterMap_map,
    List.map_filterMap, List.map_filterMap]
  congr 1
  · congr 1
    funext reply
    cases reply <;> rfl
  · congr 2
    funext item
    cases item <;> rfl

theorem filter_fresh_expire (lines : List Sent) :
    (lines.map Sent.expire).filter Sent.fresh = [] := by
  rw [List.filter_eq_nil_iff]
  intro line hline
  obtain ⟨line', -, rfl⟩ := List.mem_map.1 hline
  simp [Sent.expire]

/-! ## Steps in closed form -/

/-- The session without its next reply. -/
def behind (s : Session) (rest : List Reply) : Session := { s with replies := rest }

/-- A command that empties the window: every line expires, and its byte joins the
wire. -/
theorem hostStep_of_resets (s : Session) {cmd : RealtimeCommand} (h : cmd.resets = true) :
    s.hostStep (.realtime cmd)
      = { (s.sends (s.core.handle (.realtime cmd)) none).expire with
          wire := (s.sends (s.core.handle (.realtime cmd)) none).expire.wire
            ++ [.reset cmd] } := by
  unfold hostStep
  simp only [h, if_true]

theorem hostStep_of_not_resets (s : Session) {cmd : RealtimeCommand}
    (h : cmd.resets = false) :
    s.hostStep (.realtime cmd) = s.sends (s.core.handle (.realtime cmd)) none := by
  unfold hostStep
  simp only [h, if_false, Bool.false_eq_true]

/-- An answer read: what the core sends joins the wire, and the answer counts for
the program whose line it answers. -/
theorem deliverStep_answer (s : Session) (line : Sent) (code : Option ℕ)
    (rest : List Reply) :
    s.deliverStep (.answer line code) rest
      = { (s.behind rest).sends (s.core.handle (.response (Reply.answer line code).response))
            (some s.streamed) with
          answered := if line.owner = some s.streamed then s.answered + 1 else s.answered } := by
  show (if line.owner = some s.streamed then _ else _) = _
  split <;> rfl

/-- Another response read: a banner expires every line. -/
theorem deliverStep_push (s : Session) (response : Response) (rest : List Reply) :
    s.deliverStep (.push response) rest
        = (s.behind rest).sends (s.core.handle (.response response)) (some s.streamed)
      ∨ (∃ text, response = .banner text)
        ∧ s.deliverStep (.push response) rest
          = ((s.behind rest).sends (s.core.handle (.response response))
              (some s.streamed)).expire := by
  cases response with
  | banner text => exact .inr ⟨⟨text, rfl⟩, rfl⟩
  | _ => exact .inl rfl

theorem step_receive_nil (h : s.wire = []) (discard : Bool) (banner : Option (List Char)) :
    s.step (.receive discard banner) = s := by
  simp only [step, h]

theorem step_receive_line {line : Sent} {rest : List WireItem} (h : s.wire = .line line :: rest)
    (discard : Bool) (banner : Option (List Char)) :
    s.step (.receive discard banner)
      = { s with wire := rest, buffer := s.buffer ++ [line] } := by
  simp only [step, h]

theorem step_receive_reset {cmd : RealtimeCommand} {rest : List WireItem}
    (h : s.wire = .reset cmd :: rest) (discard : Bool) (banner : Option (List Char)) :
    s.step (.receive discard banner)
      = { s with
          wire := rest
          buffer := if discard then [] else s.buffer
          replies := s.replies ++ (banner.map fun text => .push (.banner text)).toList } := by
  simp only [step, h]

theorem step_answer_nil (h : s.buffer = []) (code : Option ℕ) : s.step (.answer code) = s := by
  simp only [step, h]

theorem step_answer_cons {line : Sent} {rest : List Sent} (h : s.buffer = line :: rest)
    (code : Option ℕ) :
    s.step (.answer code)
      = { s with buffer := rest, replies := s.replies ++ [.answer line code] } := by
  simp only [step, h]

theorem step_deliver_nil (h : s.replies = []) : s.step .deliver = s := by
  simp only [step, h]

theorem step_deliver_cons {reply : Reply} {rest : List Reply} (h : s.replies = reply :: rest) :
    s.step .deliver = s.deliverStep reply rest := by
  simp only [step, h]

/-! ## What keeps the match -/

/-- The core may change all but what is in flight. -/
theorem Matched.congr_core (h : s.Matched) {c : ProtocolCore}
    (hinflight : c.flow.inflight = s.core.flow.inflight)
    (hbytes : c.flow.inflightBytes = s.core.flow.inflightBytes)
    (hkinds : c.inflightKinds = s.core.inflightKinds) :
    ({ s with core := c } : Session).Matched where
  bytes := by rw [hbytes, hinflight, h.bytes]
  kinds := by rw [hkinds, hinflight, h.kinds]
  lens := hinflight.trans h.lens
  kindsOf := hkinds.trans h.kindsOf
  mode := h.mode
  buffered := h.buffered
  ahead := h.ahead

/-- Lines sent while none is stale are counted. -/
theorem Matched.sends (h : s.Matched) (hfresh : s.AllFresh) {t : Turn} {owner : Option ℕ}
    (hcount : t.core.Counted)
    (hinflight : t.core.flow.inflight
      = s.core.flow.inflight ++ (sentLines t owner).map Sent.len)
    (hkinds : t.core.inflightKinds
      = s.core.inflightKinds ++ (sentLines t owner).map Sent.kind) :
    (s.sends t owner).Matched ∧ (s.sends t owner).AllFresh := by
  have hnew : ∀ line ∈ sentLines t owner, line.fresh = true := by
    intro line hline
    obtain ⟨_, -, rfl⟩ := List.mem_map.1 hline
    rfl
  have hall : (s.sends t owner).AllFresh := by
    intro line hline
    rw [outstanding_sends] at hline
    rcases List.mem_append.1 hline with hline | hline
    · exact hfresh line hline
    · exact hnew line hline
  have hfilter : (s.sends t owner).outstanding.filter Sent.fresh
      = s.outstanding.filter Sent.fresh ++ sentLines t owner := by
    rw [outstanding_sends, List.filter_append, List.filter_eq_self.2 hnew]
  refine ⟨⟨hcount, ?_, ?_, .inl hall, ?_, ?_⟩, hall⟩
  · rw [hfilter, List.map_append, ← h.lens]
    exact hinflight
  · rw [hfilter, List.map_append, ← h.kindsOf]
    exact hkinds
  · intro cmd hcmd
    refine h.buffered cmd ?_
    rw [wire_sends] at hcmd
    rcases List.mem_append.1 hcmd with hcmd | hcmd
    · exact hcmd
    · obtain ⟨_, -, hline⟩ := List.mem_map.1 hcmd
      exact absurd hline (by simp)
  · rw [wire_sends, List.pairwise_append]
    refine ⟨h.ahead, ?_, ?_⟩
    · refine List.pairwise_of_forall_mem_list ?_
      intro a _ b hb
      obtain ⟨line, -, rfl⟩ := List.mem_map.1 hb
      trivial
    · intro a _ b hb
      obtain ⟨line, -, rfl⟩ := List.mem_map.1 hb
      trivial

/-- A window that is emptied matches, when every line expires. -/
theorem matched_expire (s : Session) (hinflight : s.core.flow.inflight = [])
    (hbytes : s.core.flow.inflightBytes = 0) (hkinds : s.core.inflightKinds = []) :
    s.expire.Matched where
  bytes := by
    show s.core.flow.inflightBytes = s.core.flow.inflight.sum
    rw [hbytes, hinflight]
    rfl
  kinds := by
    show s.core.inflightKinds.length = s.core.flow.inflight.length
    rw [hkinds, hinflight]
    rfl
  lens := by
    rw [outstanding_expire, filter_fresh_expire]
    exact hinflight
  kindsOf := by
    rw [outstanding_expire, filter_fresh_expire]
    exact hkinds
  mode := by
    refine .inr fun line hline => ?_
    rw [outstanding_expire] at hline
    obtain ⟨line', -, rfl⟩ := List.mem_map.1 hline
    rfl
  buffered := by
    intro cmd _ line hline
    obtain ⟨line', -, rfl⟩ := List.mem_map.1 (show line ∈ s.buffer.map Sent.expire from hline)
    rfl
  ahead := by
    refine List.pairwise_of_forall_mem_list ?_
    intro a ha b hb
    cases b with
    | line _ => trivial
    | reset cmd =>
      intro line hline
      obtain ⟨item, -, rfl⟩ := List.mem_map.1 ha
      cases item with
      | line line' =>
        obtain rfl : line'.expire = line := Option.some.inj hline
        rfl
      | reset _ => exact absurd hline (by simp [WireItem.line?])

theorem matched_start (pinned : Option ℕ) : (start pinned).Matched := by
  have hcore : (ProtocolCore.start pinned).flow.inflight = []
      ∧ (ProtocolCore.start pinned).flow.inflightBytes = 0
      ∧ (ProtocolCore.start pinned).inflightKinds = [] := by
    cases pinned <;> exact ⟨rfl, rfl, rfl⟩
  exact matched_expire (start pinned) hcore.1 hcore.2.1 hcore.2.2

/-! ## The inputs of the host -/

/-- A console line, sent while none is stale. -/
theorem Matched.sendLine (h : s.Matched) (hfresh : s.AllFresh) {t : Turn}
    {line : List UInt8} (hcore : t.core = (s.core.onSendLine line).core)
    (hout : writtenLines t.out = writtenLines (s.core.onSendLine line).out) :
    (s.sends t none).Matched ∧ (s.sends t none).AllFresh := by
  rcases s.core.onSendLine_cases line with ⟨hsame, hquiet⟩ | ⟨hsent, hwritten, -⟩
  · rw [sends_of_quiet (hout.trans hquiet), hcore, hsame]
    exact ⟨h, hfresh⟩
  · have hline : sentLines t none = [⟨(encodeLine line).length, none, true⟩] := by
      unfold sentLines
      rw [hout, hwritten]
      rfl
    refine h.sends hfresh ?_ ?_ ?_
    · rw [hcore, hsent]
      exact h.toCounted.lineSent _ _
    · rw [hcore, hsent, hline]
      rfl
    · rw [hcore, hsent, hline]
      rfl

theorem map_len_sentLines (t : Turn) (owner : Option ℕ) :
    (sentLines t owner).map Sent.len = (writtenLines t.out).map List.length := by
  unfold sentLines
  rw [List.map_map]
  rfl

theorem map_kind_sentLines (t : Turn) (n : ℕ) :
    (sentLines t (some n)).map Sent.kind
      = List.replicate (writtenLines t.out).length .program := by
  unfold sentLines
  rw [List.map_map]
  exact List.map_const

/-- A program loaded while no line is stale. -/
theorem Matched.streamProgram (h : s.Matched) (hfresh : s.AllFresh)
    (lines : List (List UInt8)) (n : ℕ) :
    (s.sends (s.core.onStreamProgram lines) (some n)).Matched
      ∧ (s.sends (s.core.onStreamProgram lines) (some n)).AllFresh := by
  rcases s.core.onStreamProgram_cases lines with
    ⟨⟨state, hcore, -⟩, hquiet⟩ | ⟨sent, rest, -, -, -, hcore, hout, -, -⟩
  · rw [sends_of_quiet hquiet, hcore]
    exact ⟨h.congr_core rfl rfl rfl, hfresh⟩
  · refine h.sends hfresh ?_ ?_ ?_
    · rw [hcore]
      have hloaded : (s.core.loaded (sent ++ rest)).Counted := ⟨h.bytes, h.kinds⟩
      exact hloaded.released sent rest
    · rw [hcore, map_len_sentLines, hout]
      rfl
    · rw [hcore, map_kind_sentLines, hout]
      rfl

/-- A reset byte is no line. -/
theorem outstanding_reset (s : Session) (cmd : RealtimeCommand) :
    ({ s with wire := s.wire ++ [.reset cmd] } : Session).outstanding = s.outstanding := by
  simp [outstanding, WireItem.line?]

/-- A reset byte joins the wire behind lines that are stale. -/
theorem Matched.append_reset (h : s.Matched)
    (hstale : ∀ line ∈ s.outstanding, line.fresh = false) (cmd : RealtimeCommand) :
    ({ s with wire := s.wire ++ [.reset cmd] } : Session).Matched := by
  have hout := s.outstanding_reset cmd
  refine ⟨h.toCounted, ?_, ?_, .inr ?_, ?_, ?_⟩
  · rw [hout]
    exact h.lens
  · rw [hout]
    exact h.kindsOf
  · rw [hout]
    exact hstale
  · intro _ _ line hline
    exact hstale line (by simp [outstanding, show line ∈ s.buffer from hline])
  · refine List.pairwise_append.2 ⟨h.ahead, List.pairwise_singleton .., ?_⟩
    intro a ha b hb
    rw [List.mem_singleton] at hb
    subst hb
    intro line hline
    refine hstale line ?_
    simp only [outstanding, List.mem_append, List.mem_filterMap]
    exact .inr (.inr ⟨a, ha, hline⟩)

theorem outstanding_expire_stale (s : Session) :
    ∀ line ∈ s.expire.outstanding, line.fresh = false := by
  intro line hline
  rw [outstanding_expire] at hline
  obtain ⟨line', -, rfl⟩ := List.mem_map.1 hline
  rfl

/-- A real-time command that empties the window expires every line. -/
theorem matched_resets (s : Session) {cmd : RealtimeCommand} (hresets : cmd.resets = true) :
    (s.hostStep (.realtime cmd)).Matched := by
  have hquiet : writtenLines (s.core.handle (.realtime cmd)).out = [] :=
    s.core.writtenLines_onRealtime cmd
  obtain ⟨state, hcore, -⟩ := core_onRealtime_of_resets s.core hresets
  have hcore : (s.core.handle (.realtime cmd)).core
      = { s.core.clearProgram.resetWindow false with
          ignoreStrayAcks := true, state := state } := hcore
  rw [hostStep_of_resets s hresets, sends_of_quiet hquiet, hcore]
  refine Matched.append_reset (matched_expire _ rfl rfl rfl) ?_ cmd
  exact outstanding_expire_stale _

/-- **An input of the host that waits keeps the match.** -/
theorem Matched.hostStep (h : s.Matched) (ev : Event) (hlegal : Legal (.host ev))
    (hwaits : s.Waits (.host ev)) : (s.hostStep ev).Matched := by
  cases ev with
  | connected =>
    show (s.sends s.core.onConnected none).Matched
    rw [sends_of_quiet (by simp [onConnected])]
    exact h.congr_core (by simp) (by simp) (by simp)
  | disconnected => exact hlegal.elim
  | response r => exact hlegal.elim
  | beginHandshake =>
    exact (h.sendLine hwaits s.core.core_beginHandshake s.core.writtenLines_beginHandshake).1
  | sendLine line => exact (h.sendLine hwaits rfl rfl).1
  | streamProgram lines =>
    have hload := (h.streamProgram hwaits lines (s.streamed + 1)).1
    exact ⟨hload.toCounted, hload.lens, hload.kindsOf, hload.mode, hload.buffered, hload.ahead⟩
  | realtime cmd =>
    cases hresets : cmd.resets with
    | true => exact matched_resets s hresets
    | false =>
      have hquiet : writtenLines (s.core.handle (.realtime cmd)).out = [] :=
        s.core.writtenLines_onRealtime cmd
      obtain ⟨state, hcore, -⟩ := core_onRealtime_of_not_resets s.core hresets
      have hcore : (s.core.handle (.realtime cmd)).core = { s.core with state := state } := hcore
      rw [hostStep_of_not_resets s hresets, sends_of_quiet hquiet, hcore]
      exact h.congr_core rfl rfl rfl

/-! ## The firmware -/

/-- **The firmware keeps the match**: what it discards at a reset byte is stale. -/
theorem Matched.receive (h : s.Matched) (discard : Bool) (banner : Option (List Char)) :
    (s.step (.receive discard banner)).Matched := by
  show Matched (match s.wire with | [] => s | .line line :: rest => _ | .reset _ :: rest => _)
  have hahead := h.ahead
  have hbuffered := h.buffered
  cases hwire : s.wire with
  | nil => exact h
  | cons item rest =>
    rw [hwire] at hahead hbuffered
    obtain ⟨hfirst, hrest⟩ := List.pairwise_cons.1 hahead
    cases item with
    | line line =>
      have hout : ({ s with wire := rest, buffer := s.buffer ++ [line] } : Session).outstanding
          = s.outstanding := by
        simp [outstanding, hwire, WireItem.line?]
      refine ⟨h.toCounted, by rw [hout]; exact h.lens, by rw [hout]; exact h.kindsOf,
        by unfold AllFresh; rw [hout]; exact h.mode, fun cmd hcmd other hother => ?_, hrest⟩
      rcases List.mem_append.1 (show other ∈ s.buffer ++ [line] from hother) with hb | hb
      · exact hbuffered cmd (List.mem_cons_of_mem _ hcmd) other hb
      · rw [List.mem_singleton.1 hb]
        exact hfirst _ hcmd line rfl
    | reset cmd =>
      have hstale := hbuffered cmd (List.mem_cons_self ..)
      have hpush : (banner.map fun text => Reply.push (.banner text)).toList.filterMap
          Reply.line? = [] := by
        cases banner <;> rfl
      generalize hdiscard : (if discard then [] else s.buffer) = buffer
      have hsub : ∀ line ∈ buffer, line ∈ s.buffer := by
        intro line hline
        rw [← hdiscard] at hline
        cases discard
        · exact hline
        · exact absurd hline (by simp)
      have hnone : buffer.filter Sent.fresh = [] ∧ s.buffer.filter Sent.fresh = [] := by
        constructor
        · rw [List.filter_eq_nil_iff]
          exact fun line hline => by simp [hstale line (hsub line hline)]
        · rw [List.filter_eq_nil_iff]
          exact fun line hline => by simp [hstale line hline]
      set s' : Session :=
        { s with
          wire := rest
          buffer := buffer
          replies := s.replies ++ (banner.map fun text => Reply.push (.banner text)).toList }
        with hs'
      have hout : s'.outstanding
          = s.replies.filterMap Reply.line? ++ (buffer ++ rest.filterMap WireItem.line?) := by
        simp [hs', outstanding, List.filterMap_append, hpush]
      have hfilter : s'.outstanding.filter Sent.fresh = s.outstanding.filter Sent.fresh := by
        rw [hout, List.filter_append, List.filter_append, hnone.1]
        show _ = (s.replies.filterMap Reply.line?
          ++ (s.buffer ++ s.wire.filterMap WireItem.line?)).filter Sent.fresh
        rw [List.filter_append, List.filter_append, hnone.2, hwire]
        rfl
      have hmem : ∀ line ∈ s'.outstanding, line ∈ s.outstanding := by
        intro line hline
        rw [hout] at hline
        simp only [outstanding, hwire, List.mem_append, List.filterMap_cons, WireItem.line?]
          at hline ⊢
        exact hline.imp_right (Or.imp_left (hsub line))
      refine ⟨h.toCounted, by rw [hfilter]; exact h.lens, by rw [hfilter]; exact h.kindsOf,
        h.mode.imp (fun hf line hl => hf line (hmem line hl))
          (fun hf line hl => hf line (hmem line hl)), fun cmd' hcmd' line hline => ?_, hrest⟩
      exact hstale line (hsub line hline)

/-- The firmware's answer keeps the match. -/
theorem Matched.answer (h : s.Matched) (code : Option ℕ) : (s.step (.answer code)).Matched := by
  show Matched (match s.buffer with | [] => s | line :: rest => _)
  have hbuffered := h.buffered
  cases hbuffer : s.buffer with
  | nil => exact h
  | cons line rest =>
    rw [hbuffer] at hbuffered
    have hout : ({ s with buffer := rest, replies := s.replies ++ [.answer line code] } :
        Session).outstanding = s.outstanding := by
      simp [outstanding, hbuffer, Reply.line?]
    refine ⟨h.toCounted, by rw [hout]; exact h.lens, by rw [hout]; exact h.kindsOf,
      by unfold AllFresh; rw [hout]; exact h.mode, fun cmd hcmd other hother => ?_, h.ahead⟩
    exact hbuffered cmd hcmd other (List.mem_cons_of_mem _ hother)

/-- A response that answers nothing keeps the match. -/
theorem Matched.push (h : s.Matched) (response : Response) :
    (s.step (.push response)).Matched := by
  have hout : (s.step (.push response)).outstanding = s.outstanding := by
    simp [step, outstanding, Reply.line?]
  refine ⟨h.toCounted, ?_, ?_, ?_, h.buffered, h.ahead⟩
  · rw [hout]
    exact h.lens
  · rw [hout]
    exact h.kindsOf
  · unfold AllFresh
    rw [hout]
    exact h.mode

/-! ## What the host reads -/

/-- The window when the next reply answers a line: the oldest line in flight is
that line, or it is stale and the window is empty. -/
theorem Matched.next (h : s.Matched) {line : Sent} {code : Option ℕ} {rest : List Reply}
    (hreplies : s.replies = .answer line code :: rest) :
    (line.fresh = true ∧ s.AllFresh
      ∧ s.core.flow.inflight
        = line.len :: ((s.behind rest).outstanding.filter Sent.fresh).map Sent.len
      ∧ s.core.inflightKinds
        = line.kind :: ((s.behind rest).outstanding.filter Sent.fresh).map Sent.kind)
    ∨ (line.fresh = false ∧ (s.behind rest).Matched ∧ s.core.flow.inflight = []) := by
  have hout : s.outstanding = line :: (s.behind rest).outstanding := by
    simp [outstanding, hreplies, behind, Reply.line?]
  have hlens := h.lens
  have hkinds := h.kindsOf
  rw [hout] at hlens hkinds
  cases hfresh : line.fresh with
  | true =>
    refine .inl ⟨rfl, ?_, ?_, ?_⟩
    · rcases h.mode with hall | hall
      · exact hall
      · have hline := hall line (by rw [hout]; exact List.mem_cons_self ..)
        exact absurd (hline.symm.trans hfresh) Bool.false_ne_true
    · rw [hlens, List.filter_cons_of_pos hfresh]
      rfl
    · rw [hkinds, List.filter_cons_of_pos hfresh]
      rfl
  | false =>
    have hnot : ¬line.fresh = true := by simp [hfresh]
    rw [List.filter_cons_of_neg hnot] at hlens hkinds
    have hall : ∀ other ∈ s.outstanding, other.fresh = false := by
      rcases h.mode with hall | hall
      · exact absurd (hall line (by rw [hout]; exact List.mem_cons_self ..)) hnot
      · exact hall
    have hrest : ∀ other ∈ (s.behind rest).outstanding, other.fresh = false :=
      fun other hother => hall other (by rw [hout]; exact List.mem_cons_of_mem _ hother)
    refine .inr ⟨rfl, ⟨h.toCounted, hlens, hkinds, .inr hrest, h.buffered, h.ahead⟩, ?_⟩
    rw [hlens, List.map_eq_nil_iff, List.filter_eq_nil_iff]
    exact fun other hother => by simp [hrest other hother]

/-- The answer to a line that is not stale: the oldest line in flight is freed, and
what the core sends joins what is on its way. -/
theorem Matched.deliver_fresh (h : s.Matched) {line : Sent} {code : Option ℕ}
    {rest : List Reply} (hreplies : s.replies = .answer line code :: rest)
    (hfresh : line.fresh = true) :
    ((s.behind rest).sends (s.core.handle (.response (Reply.answer line code).response))
        (some s.streamed)).Matched
      ∧ ((s.behind rest).sends (s.core.handle (.response (Reply.answer line code).response))
        (some s.streamed)).AllFresh := by
  rcases h.next hreplies with ⟨-, hall, hinflight, hkinds⟩ | ⟨hstale, -, -⟩
  swap
  · exact absurd (hstale.symm.trans hfresh) Bool.false_ne_true
  have hanswer : (Reply.answer line code).response.isAnswer = true := by
    cases code <;> rfl
  obtain ⟨t, hhandle, ⟨state, hcore, -⟩, hquiet⟩ := handle_answer (c := s.core) hanswer
  rw [hhandle]
  set tail := ((s.behind rest).outstanding.filter Sent.fresh).map Sent.len with htail
  have htinflight : t.core.flow.inflight = line.len :: tail := by
    rw [hcore]
    exact hinflight
  have htkinds : t.core.inflightKinds = line.kind
      :: ((s.behind rest).outstanding.filter Sent.fresh).map Sent.kind := by
    rw [hcore]
    exact hkinds
  have hacked : (t.core.acked line.len tail).Counted := by
    have hcount : t.core.Counted := by
      rw [hcore]
      exact ⟨h.bytes, h.kinds⟩
    exact hcount.acked htinflight
  have hall' : (s.behind rest).AllFresh := fun other hother => hall other (by
    simp only [outstanding, behind, hreplies, List.filterMap_cons] at hother ⊢
    exact List.mem_cons_of_mem _ hother)
  -- the session without the reply and with its line freed
  have hbehind : ∀ c : ProtocolCore, c.Counted → c.flow.inflight = tail →
      c.inflightKinds = t.core.inflightKinds.tail →
      ({ s.behind rest with core := c } : Session).Matched := by
    intro c hcount hlens hkindsOf
    rw [htkinds] at hkindsOf
    exact ⟨hcount, hlens, hkindsOf, .inl hall', h.buffered, h.ahead⟩
  rcases t.onAck_cases (decide ((Reply.answer line code).response ≠ .ok)) htinflight with
    ⟨-, -, hack, hout⟩ | ⟨base, sent, left, state', hbase, -, hack, -, hout, -⟩
  · rw [sends_of_quiet (hout.trans hquiet), hack]
    refine ⟨hbehind _ ⟨?_, ?_⟩ ?_ ?_, hall'⟩
    · exact hacked.bumped.bytes
    · exact hacked.bumped.kinds
    · show (t.core.acked line.len tail).bumped.flow.inflight = tail
      rw [flow_bumped]
      rfl
    · show (t.core.acked line.len tail).bumped.inflightKinds = _
      rw [inflightKinds_bumped]
      rfl
  · have hbasecount : base.Counted ∧ base.flow.inflight = tail
        ∧ base.inflightKinds = t.core.inflightKinds.tail := by
      rw [hbase]
      split
      · refine ⟨hacked.bumped, ?_, ?_⟩
        · rw [flow_bumped]
          rfl
        · rw [inflightKinds_bumped]
          rfl
      · exact ⟨hacked, rfl, rfl⟩
    obtain ⟨hcount, hlens, hkindsOf⟩ := hbasecount
    have hwritten : writtenLines (t.onAck (decide ((Reply.answer line code).response ≠ .ok))).out
        = sent := by
      rw [hout, hquiet]
      rfl
    refine Matched.sends (hbehind base hcount hlens hkindsOf) hall' ?_ ?_ ?_
    · rw [hack]
      have hreleased := hcount.released sent left
      exact ⟨hreleased.bytes, hreleased.kinds⟩
    · rw [hack, map_len_sentLines, hwritten]
      rfl
    · rw [hack, map_kind_sentLines, hwritten]
      rfl

/-- The answer to a stale line leaves the window empty. -/
theorem Matched.deliver_stale (h : s.Matched) {line : Sent} {code : Option ℕ}
    {rest : List Reply} (hreplies : s.replies = .answer line code :: rest)
    (hstale : line.fresh = false) :
    writtenLines (s.core.handle (.response (Reply.answer line code).response)).out = []
      ∧ (∃ state trailing, (s.core.handle (.response (Reply.answer line code).response)).core
          = { s.core with state := state, trailingAcks := trailing }
        ∧ (state = s.core.state ∨ state = .idle))
      ∧ (s.behind rest).Matched ∧ s.core.flow.inflight = [] := by
  rcases h.next hreplies with ⟨hfresh, -⟩ | ⟨-, hmatched, hempty⟩
  · exact absurd (hstale.symm.trans hfresh) Bool.false_ne_true
  have hanswer : (Reply.answer line code).response.isAnswer = true := by
    cases code <;> rfl
  obtain ⟨t, hhandle, ⟨state, hcore, hstate⟩, hquiet⟩ := handle_answer (c := s.core) hanswer
  have htempty : t.core.flow.inflight = [] := by
    rw [hcore]
    exact hempty
  obtain ⟨⟨n, hack⟩, hout⟩ :=
    t.onAck_of_empty (decide ((Reply.answer line code).response ≠ .ok)) htempty
  rw [hhandle]
  refine ⟨hout.trans hquiet, ⟨state, n, ?_, hstate⟩, hmatched, hempty⟩
  rw [hack, hcore]

/-- **A reply read keeps the match.** -/
theorem Matched.deliver (h : s.Matched)
    (hpush : ∀ response, .push response ∈ s.replies → response.isAnswer = false) :
    (s.step .deliver).Matched := by
  show Matched (match s.replies with | [] => s | reply :: rest => s.deliverStep reply rest)
  cases hreplies : s.replies with
  | nil => exact h
  | cons reply rest =>
    cases reply with
    | answer line code =>
      have hmatched : ((s.behind rest).sends
          (s.core.handle (.response (Reply.answer line code).response))
          (some s.streamed)).Matched := by
        cases hfresh : line.fresh with
        | true => exact (h.deliver_fresh hreplies hfresh).1
        | false =>
          obtain ⟨hquiet, ⟨state, n, hcore, -⟩, hbehind, -⟩ := h.deliver_stale hreplies hfresh
          rw [sends_of_quiet hquiet, hcore]
          exact hbehind.congr_core rfl rfl rfl
      show Matched (if line.owner = some s.streamed then _ else _)
      split
      · exact ⟨hmatched.toCounted, hmatched.lens, hmatched.kindsOf, hmatched.mode,
          hmatched.buffered, hmatched.ahead⟩
      · exact hmatched
    | push response =>
      have hbehind : (s.behind rest).Matched := by
        have hout : (s.behind rest).outstanding = s.outstanding := by
          unfold outstanding
          rw [hreplies]
          rfl
        refine ⟨h.toCounted, ?_, ?_, ?_, h.buffered, h.ahead⟩
        · rw [hout]
          exact h.lens
        · rw [hout]
          exact h.kindsOf
        · unfold AllFresh
          rw [hout]
          exact h.mode
      have hno := hpush response (by rw [hreplies]; exact List.mem_cons_self ..)
      by_cases hbanner : ∃ text, response = .banner text
      · obtain ⟨text, rfl⟩ := hbanner
        obtain ⟨hquiet, hcore⟩ := handle_banner (c := s.core) text
        have hcore : (s.core.handle (.response (.banner text))).core = _ := hcore
        show (((s.behind rest).sends (s.core.handle (.response (.banner text))) _).expire).Matched
        rw [sends_of_quiet hquiet, hcore]
        exact matched_expire _ rfl rfl rfl
      · have hbanner : ∀ text, response ≠ .banner text := fun text ht => hbanner ⟨text, ht⟩
        obtain ⟨hquiet, base, state, hbase, hcore, -⟩ := handle_push (c := s.core) hno hbanner
        have hcore : (s.core.handle (.response response)).core = _ := hcore
        have hsame : s.deliverStep (.push response) rest
            = (s.behind rest).sends (s.core.handle (.response response)) (some s.streamed) := by
          cases response <;> first | rfl | exact absurd rfl (hbanner _)
        show (s.deliverStep (.push response) rest).Matched
        rw [hsame, sends_of_quiet hquiet, hcore]
        have hflow : base.flow.inflight = s.core.flow.inflight
            ∧ base.flow.inflightBytes = s.core.flow.inflightBytes
            ∧ base.inflightKinds = s.core.inflightKinds := by
          rcases s.core.learnRxBuffer_cases response with hlearn | ⟨_, _, -, -, -, hlearn⟩
          all_goals
            rcases hbase with rfl | rfl <;> rw [hlearn] <;> exact ⟨rfl, rfl, rfl⟩
        exact hbehind.congr_core hflow.1 hflow.2.1 hflow.2.2

end Session

end Galdr.Host
