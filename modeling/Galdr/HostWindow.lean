import Galdr.HostLink

/-!
# The window is safe

The core never loses count: the bytes in flight are those of the lines in flight,
and every line has its kind (`counted_run`). They fit the window as long as no
`[OPT:]` message makes it smaller than they are. And the bytes the host has sent
and the firmware has not consumed fit the firmware's receive buffer in every
session whose host waits out its resets (`window_safety`). One that does not
overruns it: the answer to a line sent before the reset frees the room of a line
sent after it (`staleRun`).
-/

namespace Galdr.Host

open Runs ProtocolCore

namespace ProtocolCore

variable {c : ProtocolCore}

/-! ## The count of the core -/

theorem counted_onAck {t : Turn} (h : t.core.Counted) (isError : Bool) :
    (t.onAck isError).core.Counted := by
  rcases hflow : t.core.flow.inflight with _ | ⟨len, tail⟩
  · obtain ⟨⟨n, hcore⟩, -⟩ := t.onAck_of_empty isError hflow
    rw [hcore]
    exact ⟨h.bytes, h.kinds⟩
  · have hacked := h.acked hflow
    rcases t.onAck_cases isError hflow with
      ⟨-, -, hcore, -⟩ | ⟨base, sent, rest, state, hbase, -, hcore, -, -, -⟩
    · rw [hcore]
      exact ⟨hacked.bumped.bytes, hacked.bumped.kinds⟩
    · have hcount : base.Counted := by
        rw [hbase]
        split
        · exact hacked.bumped
        · exact hacked
      rw [hcore]
      have hreleased := hcount.released sent rest
      exact ⟨hreleased.bytes, hreleased.kinds⟩

/-- **Every input keeps the count.** -/
theorem Counted.step (h : c.Counted) (ev : Event) : (c.step ev).Counted := by
  have hline : ∀ line, (c.onSendLine line).core.Counted := by
    intro line
    rcases c.onSendLine_cases line with ⟨hcore, -⟩ | ⟨hcore, -, -⟩
    · rw [hcore]
      exact h
    · rw [hcore]
      exact h.lineSent _ _
  cases ev with
  | connected =>
    show c.onConnected.core.Counted
    rw [core_onConnected]
    exact ⟨h.bytes, h.kinds⟩
  | disconnected =>
    show c.onDisconnected.core.Counted
    rw [core_onDisconnected]
    exact ⟨rfl, rfl⟩
  | beginHandshake => exact hline _
  | sendLine line => exact hline line
  | streamProgram lines =>
    show (c.onStreamProgram lines).core.Counted
    rcases c.onStreamProgram_cases lines with
      ⟨⟨state, hcore, -⟩, -⟩ | ⟨sent, rest, -, -, -, hcore, -, -, -⟩
    · rw [hcore]
      exact ⟨h.bytes, h.kinds⟩
    · rw [hcore]
      have hloaded : (c.loaded (sent ++ rest)).Counted := ⟨h.bytes, h.kinds⟩
      exact hloaded.released sent rest
  | realtime cmd =>
    show (c.onRealtime cmd).core.Counted
    cases hresets : cmd.resets with
    | true =>
      obtain ⟨state, hcore, -⟩ := core_onRealtime_of_resets c hresets
      rw [hcore]
      exact ⟨rfl, rfl⟩
    | false =>
      obtain ⟨state, hcore, -⟩ := core_onRealtime_of_not_resets c hresets
      rw [hcore]
      exact ⟨h.bytes, h.kinds⟩
  | response response =>
    cases hanswer : response.isAnswer with
    | true =>
      obtain ⟨t, hhandle, ⟨state, hcore, -⟩, -⟩ := handle_answer (c := c) hanswer
      show (c.handle (.response response)).core.Counted
      rw [hhandle]
      refine counted_onAck ?_ _
      rw [hcore]
      exact ⟨h.bytes, h.kinds⟩
    | false =>
      by_cases hbanner : ∃ text, response = .banner text
      · obtain ⟨text, rfl⟩ := hbanner
        rw [(handle_banner (c := c) text).2]
        exact ⟨rfl, rfl⟩
      · obtain ⟨-, base, state, hbase, hcore, -⟩ := handle_push (c := c) hanswer
          fun text ht => hbanner ⟨text, ht⟩
        rw [hcore]
        rcases c.learnRxBuffer_cases response with hlearn | ⟨_, _, -, -, -, hlearn⟩
        all_goals
          rw [hlearn] at hbase
          rcases hbase with rfl | rfl <;> exact ⟨h.bytes, h.kinds⟩

/-! ## The window of the core -/

/-- **What an input does to the window**: it leaves its size, and what is in flight
fits it or is no more than before; or it empties the window; or it is an `[OPT:]`
message that resizes it. -/
theorem window_step (c : ProtocolCore) (ev : Event) :
    (c.step ev).pinnedRxWindow = c.pinnedRxWindow
    ∧ (((c.step ev).flow.rxBuffer = c.flow.rxBuffer
        ∧ ((c.step ev).flow.inflightBytes ≤ c.flow.inflightBytes
          ∨ (c.step ev).flow.inflightBytes ≤ c.flow.rxBuffer))
      ∨ ((c.step ev).flow.inflightBytes = 0
        ∧ (c.step ev).flow.rxBuffer = max (c.pinnedRxWindow.getD c.flow.rxBuffer) 1)
      ∨ ∃ body rx, ev = .response (.message body) ∧ c.pinnedRxWindow = none
        ∧ rxBufferFromOpt body = some rx ∧ (c.step ev).flow.rxBuffer = max rx 1
        ∧ (c.step ev).flow.inflightBytes = c.flow.inflightBytes) := by
  have hline : ∀ line, (c.onSendLine line).core.pinnedRxWindow = c.pinnedRxWindow
      ∧ (c.onSendLine line).core.flow.rxBuffer = c.flow.rxBuffer
      ∧ ((c.onSendLine line).core.flow.inflightBytes ≤ c.flow.inflightBytes
        ∨ (c.onSendLine line).core.flow.inflightBytes ≤ c.flow.rxBuffer) := by
    intro line
    rcases c.onSendLine_cases line with ⟨hcore, -⟩ | ⟨hcore, -, hroom⟩
    · rw [hcore]
      exact ⟨rfl, rfl, .inl le_rfl⟩
    · rw [hcore]
      exact ⟨rfl, rfl, .inr hroom⟩
  cases ev with
  | connected =>
    rw [show c.step .connected = c.onConnected.core from rfl, core_onConnected]
    exact ⟨rfl, .inl ⟨rfl, .inl le_rfl⟩⟩
  | disconnected =>
    rw [show c.step .disconnected = c.onDisconnected.core from rfl, core_onDisconnected]
    exact ⟨rfl, .inr (.inl ⟨rfl, rfl⟩)⟩
  | beginHandshake =>
    obtain ⟨hpin, hrx, hbytes⟩ := hline [0x24, 0x49]
    exact ⟨hpin, .inl ⟨hrx, hbytes⟩⟩
  | sendLine line =>
    obtain ⟨hpin, hrx, hbytes⟩ := hline line
    exact ⟨hpin, .inl ⟨hrx, hbytes⟩⟩
  | streamProgram lines =>
    rw [show c.step (.streamProgram lines) = (c.onStreamProgram lines).core from rfl]
    rcases c.onStreamProgram_cases lines with
      ⟨⟨state, hcore, -⟩, -⟩ | ⟨sent, rest, -, -, -, hcore, -, hroom, -⟩
    · rw [hcore]
      exact ⟨rfl, .inl ⟨rfl, .inl le_rfl⟩⟩
    · rw [hcore]
      refine ⟨rfl, .inl ⟨rfl, ?_⟩⟩
      by_cases hsent : sent = []
      · subst hsent
        exact .inl (le_of_eq rfl)
      · exact .inr (hroom hsent)
  | realtime cmd =>
    rw [show c.step (.realtime cmd) = (c.onRealtime cmd).core from rfl]
    cases hresets : cmd.resets with
    | true =>
      obtain ⟨state, hcore, -⟩ := core_onRealtime_of_resets c hresets
      rw [hcore]
      exact ⟨rfl, .inr (.inl ⟨rfl, rfl⟩)⟩
    | false =>
      obtain ⟨state, hcore, -⟩ := core_onRealtime_of_not_resets c hresets
      rw [hcore]
      exact ⟨rfl, .inl ⟨rfl, .inl le_rfl⟩⟩
  | response response =>
    cases hanswer : response.isAnswer with
    | true =>
      obtain ⟨t, hhandle, ⟨state, hcore, -⟩, -⟩ := handle_answer (c := c) hanswer
      unfold step
      rw [hhandle]
      rcases hflow : t.core.flow.inflight with _ | ⟨len, tail⟩
      · obtain ⟨⟨n, hack⟩, -⟩ := t.onAck_of_empty (decide (response ≠ .ok)) hflow
        rw [hack, hcore]
        exact ⟨rfl, .inl ⟨rfl, .inl le_rfl⟩⟩
      · rcases t.onAck_cases (decide (response ≠ .ok)) hflow with
          ⟨-, -, hack, -⟩ | ⟨base, sent, rest, state', hbase, -, hack, -, -, hroom⟩
        · rw [hack]
          refine ⟨?_, .inl ⟨?_, .inl ?_⟩⟩
          · show (t.core.acked len tail).bumped.pinnedRxWindow = _
            rw [pinnedRxWindow_bumped, acked, hcore]
          · show (t.core.acked len tail).bumped.flow.rxBuffer = _
            rw [flow_bumped, acked, hcore]
          · show (t.core.acked len tail).bumped.flow.inflightBytes ≤ _
            rw [flow_bumped, acked, hcore]
            exact Nat.sub_le ..
        · have hbase : base.pinnedRxWindow = c.pinnedRxWindow
              ∧ base.flow.rxBuffer = c.flow.rxBuffer
              ∧ base.flow.inflightBytes ≤ c.flow.inflightBytes := by
            have hacked : (t.core.acked len tail).pinnedRxWindow = c.pinnedRxWindow
                ∧ (t.core.acked len tail).flow.rxBuffer = c.flow.rxBuffer
                ∧ (t.core.acked len tail).flow.inflightBytes ≤ c.flow.inflightBytes := by
              rw [acked, hcore]
              exact ⟨rfl, rfl, Nat.sub_le ..⟩
            rw [hbase]
            split
            · rw [pinnedRxWindow_bumped, flow_bumped]
              exact hacked
            · exact hacked
          obtain ⟨hpin, hrx, hbytes⟩ := hbase
          rw [hack]
          refine ⟨hpin, .inl ⟨hrx, ?_⟩⟩
          by_cases hsent : sent = []
          · subst hsent
            exact .inl hbytes
          · refine .inr ((hroom hsent).trans ?_)
            rw [hcore]
    | false =>
      by_cases hbanner : ∃ text, response = .banner text
      · obtain ⟨text, rfl⟩ := hbanner
        rw [(handle_banner (c := c) text).2]
        exact ⟨rfl, .inr (.inl ⟨rfl, rfl⟩)⟩
      · obtain ⟨-, base, state, hbase, hcore, -⟩ := handle_push (c := c) hanswer
          fun text ht => hbanner ⟨text, ht⟩
        rw [hcore]
        rcases c.learnRxBuffer_cases response with
          hlearn | ⟨body, rx, hbody, hpinned, hrx, hlearn⟩
        · rw [hlearn] at hbase
          rcases hbase with rfl | rfl
          · exact ⟨rfl, .inl ⟨rfl, .inl le_rfl⟩⟩
          · exact ⟨rfl, .inl ⟨rfl, .inl le_rfl⟩⟩
        · rw [hlearn] at hbase
          subst hbody
          rcases hbase with rfl | rfl
          · exact ⟨rfl, .inr (.inr ⟨body, rx, rfl, hpinned, hrx, rfl, rfl⟩)⟩
          · exact ⟨rfl, .inr (.inr ⟨body, rx, rfl, hpinned, hrx, rfl, rfl⟩)⟩

/-- The `[OPT:]` messages that leave room for what is in flight. -/
def LeavesRoom (c : ProtocolCore) (ev : Event) : Prop :=
  match ev with
  | .response (.message body) =>
    c.pinnedRxWindow = none → ∀ rx, rxBufferFromOpt body = some rx →
      c.flow.inflightBytes ≤ max rx 1
  | _ => True

theorem counted_start (pinned : Option ℕ) : (start pinned).Counted := by
  cases pinned <;> exact ⟨rfl, rfl⟩

theorem counted_run (pinned : Option ℕ) (events : List Event) :
    (events.foldl step (start pinned)).Counted := by
  suffices h : ∀ c : ProtocolCore, c.Counted → (events.foldl step c).Counted from
    h _ (counted_start pinned)
  induction events with
  | nil => exact fun c hc => hc
  | cons ev events ih => exact fun c hc => ih _ (hc.step ev)

/-- What is in flight fits the window. -/
def Fits (c : ProtocolCore) : Prop := c.flow.inflightBytes ≤ c.flow.rxBuffer

/-- Every input that leaves room for what is in flight keeps it within the window. -/
theorem fits_step {ev : Event} (h : c.Fits) (hev : c.LeavesRoom ev) : (c.step ev).Fits := by
  unfold Fits
  obtain ⟨-, ⟨hrx, hbytes⟩ | ⟨hbytes, -⟩ | ⟨body, rx, rfl, hpinned, hopt, hrx, hbytes⟩⟩ :=
    window_step c ev
  · rw [hrx]
    exact hbytes.elim (·.trans h) id
  · rw [hbytes]
    exact Nat.zero_le _
  · rw [hrx, hbytes]
    exact hev hpinned rx hopt

theorem fits_run (pinned : Option ℕ) {events : List Event}
    (h : Allowed step LeavesRoom (start pinned) events) :
    (events.foldl step (start pinned)).Fits := by
  have hstart : (start pinned).Fits := by
    cases pinned <;> exact Nat.zero_le _
  have hkeep : ∀ (c : ProtocolCore) (ev : Event), c.Fits → c.LeavesRoom ev → (c.step ev).Fits :=
    fun _ _ hc hev => fits_step hc hev
  exact h.invariant hkeep hstart

end ProtocolCore

namespace Session

variable {s : Session} {room : ℕ}

/-! ## The bytes the firmware has not consumed -/

/-- What the firmware advertises is no more than the room it has. -/
def Advertises (room : ℕ) (action : Action) : Prop :=
  match action with
  | .push (.message body) => ∀ rx, rxBufferFromOpt body = some rx → max rx 1 ≤ room
  | _ => True

/-- **What a session keeps**: it is matched, the window and what is in flight are no
more than the firmware's room, and so are the bytes sent and not consumed. -/
structure Bounded (room : ℕ) (s : Session) : Prop extends s.Matched where
  /-- A response that answers nothing is no answer, and advertises no more. -/
  pushes : ∀ response, .push response ∈ s.replies →
    response.isAnswer = false ∧ Advertises room (.push response)
  /-- There is room for one byte. -/
  positive : 1 ≤ room
  /-- The window is no more than the room. -/
  window : s.core.flow.rxBuffer ≤ room
  /-- The window the operator has fixed is no more than the room. -/
  pin : ∀ bytes, s.core.pinnedRxWindow = some bytes → bytes ≤ room
  /-- What is in flight is no more than the room. -/
  inflight : s.core.flow.inflightBytes ≤ room
  /-- What is not consumed is no more than the room. -/
  notConsumed : s.unconsumed ≤ room

/-- While no line is stale, the bytes not consumed are in flight. -/
theorem Matched.unconsumed_le (h : s.Matched) (hfresh : s.AllFresh) :
    s.unconsumed ≤ s.core.flow.inflightBytes := by
  rw [h.bytes, h.lens, List.filter_eq_self.2 hfresh]
  have hsum : (s.outstanding.map Sent.len).sum
      = ((s.replies.filterMap Reply.line?).map Sent.len).sum + s.unconsumed := by
    show (List.map Sent.len (_ ++ (_ ++ _))).sum = _
    rw [List.map_append, List.sum_append]
    rfl
  rw [hsum]
  exact Nat.le_add_left ..

/-- A reset byte on the wire is no byte of a line. -/
theorem unconsumed_reset (s : Session) (cmd : RealtimeCommand) :
    ({ s with wire := s.wire ++ [.reset cmd] } : Session).unconsumed = s.unconsumed := by
  show ((s.buffer ++ (s.wire ++ [WireItem.reset cmd]).filterMap WireItem.line?).map
    Sent.len).sum = _
  rw [List.filterMap_append, show [WireItem.reset cmd].filterMap WireItem.line? = [] from rfl,
    List.append_nil]
  rfl

theorem sum_len_map_expire (lines : List Sent) :
    ((lines.map Sent.expire).map Sent.len).sum = (lines.map Sent.len).sum := by
  rw [List.map_map]
  rfl

theorem unconsumed_expire (s : Session) : s.expire.unconsumed = s.unconsumed := by
  have hwire : s.expire.wire.filterMap WireItem.line?
      = (s.wire.filterMap WireItem.line?).map Sent.expire := by
    show (s.wire.map _).filterMap WireItem.line? = _
    rw [List.filterMap_map, List.map_filterMap]
    congr 1
    funext item
    cases item <;> rfl
  unfold unconsumed
  rw [hwire, show s.expire.buffer = s.buffer.map Sent.expire from rfl, ← List.map_append,
    sum_len_map_expire]

/-- The core of a session moves with the inputs of the host and the replies it reads;
its window stays within the room, when what it reads advertises no more. -/
theorem Bounded.core_step (h : s.Bounded room) (ev : Event)
    (hev : ∀ body rx, ev = .response (.message body) → rxBufferFromOpt body = some rx →
      max rx 1 ≤ room) :
    (s.core.step ev).flow.rxBuffer ≤ room
      ∧ (∀ bytes, (s.core.step ev).pinnedRxWindow = some bytes → bytes ≤ room)
      ∧ (s.core.step ev).flow.inflightBytes ≤ room := by
  obtain ⟨hpin, ⟨hrx, hbytes⟩ | ⟨hbytes, hrx⟩ | ⟨body, rx, rfl, hpinned, hopt, hrx, hbytes⟩⟩ :=
    window_step s.core ev
  · refine ⟨hrx ▸ h.window, fun bytes hb => h.pin bytes (hpin ▸ hb), ?_⟩
    exact hbytes.elim (·.trans h.inflight) (·.trans h.window)
  · refine ⟨?_, fun bytes hb => h.pin bytes (hpin ▸ hb), by rw [hbytes]; exact Nat.zero_le _⟩
    rw [hrx]
    refine max_le ?_ h.positive
    cases hpinned : s.core.pinnedRxWindow with
    | none => exact h.window
    | some bytes => exact h.pin bytes hpinned
  · refine ⟨?_, fun bytes hb => h.pin bytes (hpin ▸ hb), hbytes ▸ h.inflight⟩
    rw [hrx]
    exact hev body rx rfl hopt

/-- What the bounds come to once the core has moved. -/
theorem Bounded.of_core_step (h : s.Bounded room) (ev : Event) {s' : Session}
    (hev : ∀ body rx, ev = .response (.message body) → rxBufferFromOpt body = some rx →
      max rx 1 ≤ room)
    (hcore : s'.core = s.core.step ev) (hmatched : s'.Matched)
    (hreplies : ∀ response, .push response ∈ s'.replies → .push response ∈ s.replies)
    (hconsumed : s'.unconsumed ≤ s.unconsumed ∨ s'.AllFresh) : s'.Bounded room := by
  obtain ⟨hwindow, hpin, hinflight⟩ := h.core_step ev hev
  rw [← hcore] at hwindow hpin hinflight
  refine ⟨hmatched, fun response hr => h.pushes response (hreplies response hr), h.positive,
    hwindow, hpin, hinflight, ?_⟩
  rcases hconsumed with hle | hfresh
  · exact hle.trans h.notConsumed
  · exact (hmatched.unconsumed_le hfresh).trans hinflight

theorem push_mem_expire {response : Response} (h : .push response ∈ s.expire.replies) :
    .push response ∈ s.replies := by
  obtain ⟨reply, hreply, heq⟩ := List.mem_map.1 h
  cases reply with
  | answer line code => exact absurd heq (by simp)
  | push response' =>
    obtain rfl : response' = response := by simpa using heq
    exact hreply

/-- An input of the host keeps the bounds. -/
theorem Bounded.hostStep (h : s.Bounded room) (ev : Event) (hlegal : Legal (.host ev))
    (hwaits : s.Waits (.host ev)) : (s.hostStep ev).Bounded room := by
  have hmatched := h.toMatched.hostStep ev hlegal hwaits
  have hno : ∀ body rx, ev = .response (.message body) → rxBufferFromOpt body = some rx →
      max rx 1 ≤ room := by
    intro body rx hev
    subst hev
    exact hlegal.elim
  cases ev with
  | disconnected => exact hlegal.elim
  | response r => exact hlegal.elim
  | connected =>
    refine h.of_core_step .connected hno rfl hmatched (fun _ hr => hr) (.inl ?_)
    show unconsumed (s.sends s.core.onConnected none) ≤ _
    rw [sends_of_quiet (by simp [onConnected])]
    exact le_rfl
  | beginHandshake =>
    exact h.of_core_step .beginHandshake hno rfl hmatched (fun _ hr => hr)
      (.inr (h.toMatched.sendLine hwaits s.core.core_beginHandshake
        s.core.writtenLines_beginHandshake).2)
  | sendLine line =>
    exact h.of_core_step (.sendLine line) hno rfl hmatched (fun _ hr => hr)
      (.inr (h.toMatched.sendLine hwaits rfl rfl).2)
  | streamProgram lines =>
    exact h.of_core_step (.streamProgram lines) hno rfl hmatched (fun _ hr => hr)
      (.inr (h.toMatched.streamProgram hwaits lines (s.streamed + 1)).2)
  | realtime cmd =>
    have hquiet : writtenLines (s.core.handle (.realtime cmd)).out = [] :=
      s.core.writtenLines_onRealtime cmd
    cases hresets : cmd.resets with
    | true =>
      have hstep := hostStep_of_resets s hresets
      refine h.of_core_step (.realtime cmd) hno (by rw [hstep]; rfl) hmatched ?_ (.inl ?_)
      · intro response hr
        rw [hstep, sends_of_quiet hquiet] at hr
        exact push_mem_expire hr
      · have hsame := unconsumed_expire { s with core := (s.core.handle (.realtime cmd)).core }
        rw [hstep, sends_of_quiet hquiet, unconsumed_reset, hsame]
        exact le_rfl
    | false =>
      have hstep := hostStep_of_not_resets s hresets
      refine h.of_core_step (.realtime cmd) hno (by rw [hstep]; rfl) hmatched ?_ (.inl ?_)
      · intro response hr
        rw [hstep] at hr
        exact hr
      · rw [hstep, sends_of_quiet hquiet]
        exact le_rfl

/-- A step of the firmware that moves no core keeps the bounds. -/
theorem Bounded.of_firmware (h : s.Bounded room) {s' : Session} (hcore : s'.core = s.core)
    (hmatched : s'.Matched)
    (hreplies : ∀ response, .push response ∈ s'.replies → .push response ∈ s.replies
      ∨ response.isAnswer = false ∧ Advertises room (.push response))
    (hconsumed : s'.unconsumed ≤ s.unconsumed) : s'.Bounded room := by
  refine ⟨hmatched, fun response hr => ?_, h.positive, hcore ▸ h.window, ?_,
    hcore ▸ h.inflight, hconsumed.trans h.notConsumed⟩
  · exact (hreplies response hr).elim (h.pushes response) id
  · intro bytes hb
    rw [hcore] at hb
    exact h.pin bytes hb

theorem Bounded.receive (h : s.Bounded room) (discard : Bool)
    (banner : Option (List Char)) : (s.step (.receive discard banner)).Bounded room := by
  have hmatched := h.toMatched.receive discard banner
  cases hwire : s.wire with
  | nil =>
    rw [step_receive_nil hwire]
    exact h
  | cons item rest =>
    cases item with
    | line line =>
      rw [step_receive_line hwire] at hmatched ⊢
      refine h.of_firmware rfl hmatched (fun _ hr => .inl hr) (le_of_eq ?_)
      unfold unconsumed
      rw [hwire]
      simp [WireItem.line?]
    | reset cmd =>
      rw [step_receive_reset hwire] at hmatched ⊢
      refine h.of_firmware rfl hmatched (fun response hr => ?_) ?_
      · rcases List.mem_append.1 hr with hr | hr
        · exact .inl hr
        · cases banner with
          | none => exact absurd hr (by simp)
          | some text =>
            obtain rfl : response = .banner text := by simpa using hr
            exact .inr ⟨rfl, trivial⟩
      · unfold unconsumed
        rw [hwire]
        cases discard
        · exact le_rfl
        · simp [WireItem.line?, List.filterMap_cons]

theorem Bounded.answer (h : s.Bounded room) (code : Option ℕ) :
    (s.step (.answer code)).Bounded room := by
  have hmatched := h.toMatched.answer code
  cases hbuffer : s.buffer with
  | nil =>
    rw [step_answer_nil hbuffer]
    exact h
  | cons line rest =>
    rw [step_answer_cons hbuffer] at hmatched ⊢
    refine h.of_firmware rfl hmatched (fun response hr => ?_) ?_
    · exact .inl (by simpa using hr)
    · simp [unconsumed, hbuffer]

theorem Bounded.push (h : s.Bounded room) {response : Response}
    (hlegal : Legal (.push response)) (hadvertises : Advertises room (.push response)) :
    (s.step (.push response)).Bounded room := by
  refine h.of_firmware rfl (h.toMatched.push response) (fun other hr => ?_) le_rfl
  rcases List.mem_append.1 hr with hr | hr
  · exact .inl hr
  · obtain rfl : other = response := by simpa using hr
    exact .inr ⟨hlegal, hadvertises⟩

/-- A reply read keeps the bounds. -/
theorem Bounded.deliver (h : s.Bounded room) : (s.step .deliver).Bounded room := by
  have hmatched := h.toMatched.deliver fun response hr => (h.pushes response hr).1
  cases hreplies : s.replies with
  | nil =>
    rw [step_deliver_nil hreplies]
    exact h
  | cons reply rest =>
    rw [step_deliver_cons hreplies] at hmatched ⊢
    have hsub : ∀ response, .push response ∈ rest → .push response ∈ s.replies := by
      intro response hr
      rw [hreplies]
      exact List.mem_cons_of_mem _ hr
    cases reply with
    | answer line code =>
      have hno : ∀ body rx, Event.response (Reply.answer line code).response
          = .response (.message body) → rxBufferFromOpt body = some rx → max rx 1 ≤ room := by
        intro body rx hev
        cases code <;> exact absurd hev (by simp [Reply.response])
      have hconsumed : ((s.behind rest).sends
            (s.core.handle (.response (Reply.answer line code).response))
            (some s.streamed)).unconsumed ≤ s.unconsumed
          ∨ ((s.behind rest).sends
            (s.core.handle (.response (Reply.answer line code).response))
            (some s.streamed)).AllFresh := by
        cases hfresh : line.fresh with
        | true => exact .inr (h.toMatched.deliver_fresh hreplies hfresh).2
        | false =>
          obtain ⟨hquiet, -⟩ := h.toMatched.deliver_stale hreplies hfresh
          rw [sends_of_quiet hquiet]
          exact .inl le_rfl
      refine h.of_core_step (.response (Reply.answer line code).response) hno ?_ hmatched ?_ ?_
      · show (s.deliverStep (.answer line code) rest).core = _
        rw [deliverStep_answer]
        rfl
      · intro response hr
        refine hsub response ?_
        have hr : .push response ∈ (s.deliverStep (.answer line code) rest).replies := hr
        rw [deliverStep_answer] at hr
        exact hr
      · show (s.deliverStep (.answer line code) rest).unconsumed ≤ _
          ∨ (s.deliverStep (.answer line code) rest).AllFresh
        rw [deliverStep_answer]
        exact hconsumed
    | push response =>
      have hpush := h.pushes response (by rw [hreplies]; exact List.mem_cons_self ..)
      have hev : ∀ body rx, Event.response (Reply.push response).response
          = .response (.message body) → rxBufferFromOpt body = some rx → max rx 1 ≤ room := by
        intro body rx hev hopt
        obtain rfl : response = .message body := by simpa [Reply.response] using hev
        exact hpush.2 rx hopt
      have hquiet : writtenLines (s.core.handle (.response response)).out = [] := by
        by_cases hbanner : ∃ text, response = .banner text
        · obtain ⟨text, rfl⟩ := hbanner
          exact (handle_banner (c := s.core) text).1
        · exact (handle_push (c := s.core) hpush.1 fun text ht => hbanner ⟨text, ht⟩).1
      have hstep' := s.deliverStep_push response rest
      refine h.of_core_step (.response response) hev ?_ hmatched ?_ (.inl ?_)
      · show (s.deliverStep (.push response) rest).core = _
        rcases hstep' with hs | ⟨-, hs⟩ <;> rw [hs] <;> rfl
      · intro other hr
        refine hsub other ?_
        have hr : .push other ∈ (s.deliverStep (.push response) rest).replies := hr
        rcases hstep' with hs | ⟨-, hs⟩
        · rw [hs] at hr
          exact hr
        · rw [hs] at hr
          exact push_mem_expire hr
      · show (s.deliverStep (.push response) rest).unconsumed ≤ _
        rcases hstep' with hs | ⟨-, hs⟩
        · rw [hs, sends_of_quiet hquiet]
          exact le_rfl
        · rw [hs, unconsumed_expire, sends_of_quiet hquiet]
          exact le_rfl

/-- **A step of a session whose host waits keeps the bounds.** -/
theorem Bounded.step (h : s.Bounded room) (action : Action) (hlegal : Legal action)
    (hadvertises : Advertises room action) (hwaits : s.Waits action) :
    (s.step action).Bounded room := by
  cases action with
  | host ev => exact h.hostStep ev hlegal hwaits
  | receive discard banner => exact h.receive discard banner
  | answer code => exact h.answer code
  | push response => exact h.push hlegal hadvertises
  | deliver => exact h.deliver

theorem bounded_start (pinned : Option ℕ)
    (hroom : (ProtocolCore.start pinned).flow.rxBuffer ≤ room) :
    (start pinned).Bounded room where
  toMatched := matched_start pinned
  pushes response hr := absurd hr (by simp [start])
  positive := by
    refine le_trans ?_ hroom
    cases pinned with
    | none => decide
    | some bytes => exact le_max_right bytes 1
  window := hroom
  pin bytes hb := by
    cases pinned with
    | none => exact absurd hb (by simp [start, ProtocolCore.start, ProtocolCore.new])
    | some bytes' =>
      obtain rfl : bytes' = bytes := by
        simpa [start, ProtocolCore.start, pinRxWindow] using hb
      exact (le_max_left bytes' 1).trans hroom
  inflight := by cases pinned <;> exact Nat.zero_le _
  notConsumed := Nat.zero_le _

/-- The bytes not consumed fit the firmware's room in every session whose host waits
out its resets. -/
theorem unconsumed_run (pinned : Option ℕ) (room : ℕ) {actions : List Action}
    (hroom : (ProtocolCore.start pinned).flow.rxBuffer ≤ room)
    (hlegal : Allowed step (fun _ a => Legal a ∧ Advertises room a) (start pinned) actions)
    (hwaits : Allowed step Waits (start pinned) actions) :
    (actions.foldl step (start pinned)).unconsumed ≤ room := by
  have hkeep : ∀ (s : Session) (a : Action), s.Bounded room →
      (Legal a ∧ Advertises room a) ∧ s.Waits a → (s.step a).Bounded room :=
    fun s a hs ha => hs.step a ha.1.1 ha.1.2 ha.2
  exact ((hlegal.and hwaits).invariant hkeep (bounded_start pinned hroom)).notConsumed

/-- A short line. -/
def movesLine : List UInt8 := [0x47, 0x31]

/-- A line is answered and its answer read before the host resets its window. -/
def drainedRun : List Action :=
  [.host .connected, .host (.sendLine movesLine), .receive false none, .answer none, .deliver,
    .host (.realtime .programStop), .host (.sendLine movesLine)]

/-- A line is answered, but the host resets its window before it reads the answer,
and sends two lines around it. -/
def staleRun : List Action :=
  [.host .connected, .host (.sendLine movesLine), .receive false none, .answer none,
    .host (.realtime .programStop), .host (.sendLine movesLine), .deliver,
    .host (.sendLine movesLine)]

/-- A line is in flight when the firmware advertises a smaller buffer. -/
def shrinkRun : List Event :=
  [.connected, .sendLine movesLine, .response (.message "OPT:V,1,2".toList)]

end Session

end Galdr.Host
