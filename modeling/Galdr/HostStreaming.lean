import Galdr.HostSteps
import Galdr.Runs

/-!
# Streaming does not stall

Lines are released by answers only, so that a core that streams with nothing in
flight streams for ever. `Live` is what keeps that from happening: while it
streams something is in flight, and every line still queued fits an empty window.
Every input keeps it but four (`Unstalled`): a connection in the middle of a
program, a resume after the last line in flight was answered during the hold, a
status report that takes a held program to idle or alarm, and an `[OPT:]` message
that makes the window smaller than a queued line.

A live core that streams completes: the answers to the lines in flight and to the
lines still queued take it to idle with every line sent (`Live.completes`).
-/

namespace Galdr.Host

open Runs

namespace ProtocolCore

/-- **What the streaming claims**: a queued program streams or is held, a core that
streams has a line in flight, and the line at the head of the queue fits the
window once the lines in flight are answered. -/
structure Progressing (c : ProtocolCore) : Prop where
  /-- A queued program streams or is held. -/
  queued : c.program ≠ [] → c.state = .streaming ∨ c.state = .hold
  /-- A core that streams has a line in flight. -/
  awaited : c.state = .streaming → c.flow.inflight ≠ []
  /-- The head of the queue waits for bytes in flight only. -/
  head : c.state = .streaming → ∀ next rest, c.program = next :: rest →
    (FlowWindow.new c.flow.rxBuffer).fits next.length = .ok true

/-- A counted core whose queued lines can be sent, and are streamed or held. -/
structure Ready (c : ProtocolCore) : Prop extends Counted c where
  /-- A queued program streams or is held. -/
  queued : c.program ≠ [] → c.state = .streaming ∨ c.state = .hold
  /-- Every queued line fits an empty window. -/
  sendable : ∀ line ∈ c.program, line.length ≤ c.flow.rxBuffer
  /-- No window is empty. -/
  positive : 0 < c.flow.rxBuffer

/-- A ready core that has a line in flight when it streams. -/
structure Live (c : ProtocolCore) : Prop extends Ready c where
  /-- A core that streams has a line in flight. -/
  awaited : c.state = .streaming → c.flow.inflight ≠ []

/-- A live core progresses. -/
theorem Live.progressing {c : ProtocolCore} (h : c.Live) : c.Progressing where
  queued := h.queued
  awaited := h.awaited
  head _ next rest hprogram := by
    rw [FlowWindow.fits_eq_ok_true_iff']
    have hnext := h.sendable next (by rw [hprogram]; exact List.mem_cons_self ..)
    show 0 + next.length ≤ max c.flow.rxBuffer 1
    omega

variable {c : ProtocolCore}

/-! ## What keeps a core live -/

/-- A core whose program is gone is live, when it does not stream. -/
theorem live_of_cleared (hcount : c.Counted) (hpos : 0 < c.flow.rxBuffer)
    (hprogram : c.program = []) (hstate : c.state = .streaming → c.flow.inflight ≠ []) :
    c.Live where
  toCounted := hcount
  queued h := absurd hprogram h
  sendable line hline := by
    rw [hprogram] at hline
    exact absurd hline (by simp)
  positive := hpos
  awaited := hstate

/-- **The release loop makes a ready core live**, or finds it done. -/
theorem Ready.released_awaited (h : c.Ready) {sent rest : List Line}
    (hsplit : c.program = sent ++ rest)
    (hfull : ∀ next after, rest = next :: after →
      c.flow.rxBuffer < (c.released sent rest).flow.inflightBytes + next.length)
    (hmore : ¬(rest = [] ∧ (c.released sent rest).hasProgramInflight = false)) :
    (c.released sent rest).flow.inflight ≠ [] := by
  intro hempty
  obtain ⟨hflow, hsent⟩ := List.append_eq_nil_iff.1
    (show c.flow.inflight ++ sent.map List.length = [] from hempty)
  obtain rfl := List.map_eq_nil_iff.1 hsent
  have hbytes : (c.released [] rest).flow.inflightBytes = 0 := by
    rw [(h.toCounted.released [] rest).bytes, hempty]
    rfl
  cases rest with
  | nil =>
    have hkinds := (h.toCounted.released [] []).kinds
    rw [hempty] at hkinds
    refine hmore ⟨rfl, ?_⟩
    unfold hasProgramInflight
    rw [List.length_eq_zero_iff.1 hkinds]
    rfl
  | cons next after =>
    have hroom := hfull next after rfl
    rw [hbytes, Nat.zero_add] at hroom
    exact absurd (h.sendable next (by rw [hsplit]; simp)) (not_le.2 hroom)

/-- The release loop keeps a streaming core ready. -/
theorem Ready.released (h : c.Ready) {sent rest : List Line}
    (hsplit : c.program = sent ++ rest) (hstate : c.state = .streaming) :
    (c.released sent rest).Ready where
  toCounted := h.toCounted.released sent rest
  queued _ := .inl hstate
  sendable line hline := h.sendable line (by rw [hsplit]; exact List.mem_append_right sent hline)
  positive := h.positive

/-- What follows an answer makes a ready core live. -/
theorem live_streamOn {t : Turn} (h : t.core.Ready) : t.streamOn.core.Live := by
  rcases t.streamOn_cases with ⟨hstate, hsame⟩ | ⟨hstate, sent, rest, hsplit, -, -, hfull, hcase⟩
  · rw [hsame]
    exact ⟨h, fun hstreaming => absurd hstreaming hstate⟩
  · rcases hcase with ⟨-, rfl, hcore⟩ | ⟨hmore, hcore⟩
    · rw [hcore]
      have hcount := h.toCounted.released sent []
      exact live_of_cleared ⟨hcount.bytes, hcount.kinds⟩ h.positive rfl
        fun hidle => absurd hidle (by simp)
    · rw [hcore]
      exact ⟨h.released hsplit hstate, fun _ => h.released_awaited hsplit hfull hmore⟩

theorem Ready.acked (h : c.Ready) {len : ℕ} {rest : List ℕ}
    (hflow : c.flow.inflight = len :: rest) : (c.acked len rest).Ready :=
  ⟨h.toCounted.acked hflow, h.queued, h.sendable, h.positive⟩

theorem Ready.bumped (h : c.Ready) : c.bumped.Ready := by
  unfold ProtocolCore.bumped
  split
  · exact ⟨⟨h.bytes, h.kinds⟩, h.queued, h.sendable, h.positive⟩
  · exact h

/-- An answer keeps a core live. -/
theorem live_onAck {t : Turn} (h : t.core.Live) (isError : Bool) :
    (t.onAck isError).core.Live := by
  rcases hflow : t.core.flow.inflight with _ | ⟨len, rest⟩
  · obtain ⟨⟨n, hcore⟩, -⟩ := t.onAck_of_empty isError hflow
    rw [hcore]
    exact ⟨⟨⟨h.bytes, h.kinds⟩, h.queued, h.sendable, h.positive⟩, h.awaited⟩
  · cases hkind : t.core.inflightKinds.headD .other with
    | other =>
      rw [t.onAck_of_other isError hflow hkind]
      exact live_streamOn (h.toReady.acked hflow)
    | program =>
      cases isError with
      | false =>
        rw [t.onAck_of_program hflow hkind]
        exact live_streamOn (h.toReady.acked hflow).bumped
      | true =>
        rw [t.onAck_of_program_error hflow hkind, Turn.core_transition]
        have hready := (h.toReady.acked hflow).bumped
        exact live_of_cleared ⟨hready.bytes, hready.kinds⟩ hready.positive rfl
          fun herror => absurd herror (by simp)

/-! ## The inputs that keep it -/

/-- **The inputs that do not stall a core.** -/
def Unstalled (c : ProtocolCore) (ev : Event) : Prop :=
  match ev with
  | .connected => c.program = []
  | .realtime .cycleStart => c.state = .hold → c.flow.inflight ≠ []
  | .response (.status body) =>
    c.state = .hold → c.program ≠ [] →
      statusRunState body ≠ .idle ∧ statusRunState body ≠ .alarm
  | .response (.message body) =>
    c.pinnedRxWindow = none → ∀ rx, rxBufferFromOpt body = some rx →
      ∀ line ∈ c.program, line.length ≤ max rx 1
  | _ => True

/-- A connection keeps a core without a program live. -/
theorem live_onConnected (h : c.Live) (hprogram : c.program = []) :
    c.onConnected.core.Live := by
  rw [core_onConnected]
  exact live_of_cleared ⟨h.bytes, h.kinds⟩ h.positive hprogram fun hstate =>
    absurd hstate (by simp)

/-- A console line keeps a core live. -/
theorem live_onSendLine (h : c.Live) (line : List UInt8) :
    (c.onSendLine line).core.Live := by
  rcases c.onSendLine_cases line with ⟨hcore, -⟩ | ⟨hcore, -, -⟩
  · rw [hcore]
    exact h
  · rw [hcore]
    refine ⟨⟨h.toCounted.lineSent _ _, h.queued, h.sendable, h.positive⟩, fun _ => ?_⟩
    show c.flow.inflight ++ [_] ≠ []
    simp

/-- A program loaded keeps a core live. -/
theorem live_onStreamProgram (h : c.Live) (lines : List (List UInt8)) :
    (c.onStreamProgram lines).core.Live := by
  rcases c.onStreamProgram_cases lines with
    ⟨⟨state, hcore, hstate⟩, -⟩ | ⟨sent, rest, -, hne, hall, hcore, -, -, hfull⟩
  · rw [hcore]
    refine live_of_cleared ⟨h.bytes, h.kinds⟩ h.positive rfl fun hstreaming => ?_
    rcases hstate with rfl | rfl
    · exact h.awaited hstreaming
    · exact absurd hstreaming (by simp)
  · rw [hcore]
    have hready : (c.loaded (sent ++ rest)).Ready :=
      ⟨⟨h.bytes, h.kinds⟩, fun _ => .inl rfl, hall, h.positive⟩
    refine ⟨hready.released rfl rfl, fun _ => ?_⟩
    by_cases hsent : sent = []
    · subst hsent
      refine hready.released_awaited rfl hfull fun hdone => hne ?_
      rw [hdone.1]
      rfl
    · show c.flow.inflight ++ sent.map List.length ≠ []
      simp [hsent]

/-- A stop or a reset keeps a core live. -/
theorem live_abort (t : Turn) : (abort t).core.Live := by
  obtain ⟨state, hcore, hstate⟩ := core_abort t
  rw [hcore]
  refine live_of_cleared ⟨rfl, rfl⟩ ?_ rfl fun hstreaming => ?_
  · exact lt_of_lt_of_le Nat.one_pos (le_max_right _ 1)
  · rcases hstate with rfl | ⟨hconn, rfl⟩
    · exact absurd hstreaming (by simp)
    · rw [show t.core.state = .streaming from hstreaming] at hconn
      exact absurd hconn (by decide)

/-- A real-time command keeps a core live, but for a resume of a held core with
nothing in flight. -/
theorem live_onRealtime (h : c.Live) (cmd : RealtimeCommand)
    (hresume : cmd = .cycleStart → c.state = .hold → c.flow.inflight ≠ []) :
    (c.onRealtime cmd).core.Live := by
  rw [core_onRealtime]
  cases cmd
  case softReset => exact live_abort _
  case programStop => exact live_abort _
  case cycleStart =>
    by_cases hhold : c.state = .hold
    · simp only [if_pos hhold]
      exact ⟨⟨⟨h.bytes, h.kinds⟩, fun _ => .inl rfl, h.sendable, h.positive⟩,
        fun _ => hresume rfl hhold⟩
    · simp only [if_neg hhold]
      exact h
  case feedHold =>
    by_cases hstreaming : c.state = .streaming
    · simp only [if_pos hstreaming]
      exact ⟨⟨⟨h.bytes, h.kinds⟩, fun _ => .inr rfl, h.sendable, h.positive⟩,
        fun hstate => absurd hstate (by simp)⟩
    · simp only [if_neg hstreaming]
      exact h
  all_goals exact h

/-- Learning the window keeps a core live, when the queued lines fit it. -/
theorem live_learnRxBuffer (h : c.Live) (response : Response)
    (hfits : ∀ body rx, response = .message body → c.pinnedRxWindow = none →
      rxBufferFromOpt body = some rx → ∀ line ∈ c.program, line.length ≤ max rx 1) :
    (c.learnRxBuffer response).Live := by
  rcases c.learnRxBuffer_cases response with hcore | ⟨body, rx, hbody, hpinned, hrx, hcore⟩
  · rw [hcore]
    exact h
  · rw [hcore]
    exact ⟨⟨⟨h.bytes, h.kinds⟩, h.queued, hfits body rx hbody hpinned hrx,
      lt_of_lt_of_le Nat.one_pos (le_max_right _ 1)⟩, h.awaited⟩

theorem adoptedStateFor_ne_streaming (response : Response) :
    adoptedStateFor response ≠ .streaming := by
  unfold adoptedStateFor
  split
  · split <;> simp
  · simp
  · simp

/-- Following a response keeps a core live, but for a status report that takes a
held program away. -/
theorem live_adoptState {t : Turn} (h : t.core.Live) (response : Response)
    (hkeep : ∀ body, response = .status body → t.core.state = .hold → t.core.program ≠ [] →
      statusRunState body ≠ .idle ∧ statusRunState body ≠ .alarm) :
    (adoptState t response).core.Live := by
  rcases adoptState_cases t response with
    hsame | ⟨hstate, hadopt⟩ | ⟨body, state, hbody, hstate, hrun, hadopt⟩
  · rw [hsame]
    exact h
  · rw [hadopt, Turn.core_transition]
    have hprogram : t.core.program = [] := by
      by_contra hne
      rcases h.queued hne with hs | hs
      · exact absurd (hstate.symm.trans hs) (by decide)
      · exact absurd (hstate.symm.trans hs) (by decide)
    exact live_of_cleared ⟨h.bytes, h.kinds⟩ h.positive hprogram
      fun hstreaming => absurd hstreaming (adoptedStateFor_ne_streaming response)
  · rw [hadopt, Turn.core_transition]
    have hadopted := eq_of_lifecycleFromStatusRunstate hrun
    refine ⟨⟨⟨h.bytes, h.kinds⟩, fun hne => ?_, h.sendable, h.positive⟩, fun hstreaming => ?_⟩
    · -- a queued program here is held, and what it adopts is again a hold
      have hhold : t.core.state = .hold := by
        rcases h.queued hne with hs | hs
        · rw [hs] at hstate
          exact absurd hstate (by decide)
        · exact hs
      obtain ⟨hidle, halarm⟩ := hkeep body hbody hhold hne
      rcases hadopted with ⟨hr, -⟩ | ⟨-, hs⟩ | ⟨hr, -⟩
      · exact absurd hr hidle
      · exact .inr hs
      · exact absurd hr halarm
    · have hstreaming : state = .streaming := hstreaming
      rw [hstreaming] at hadopted
      exact absurd hadopted (by simp)

/-- The reaction to a response keeps a core live. -/
theorem live_react {t : Turn} (h : t.core.Live) (response : Response) :
    (react t response).core.Live := by
  cases response
  case ok => exact live_onAck h false
  case error => exact live_onAck h true
  case alarm =>
    unfold react
    rw [Turn.core_transition]
    exact live_of_cleared ⟨h.bytes, h.kinds⟩ h.positive rfl fun hstate => absurd hstate (by simp)
  case banner =>
    unfold react
    rw [Turn.core_transition]
    refine live_of_cleared ⟨rfl, rfl⟩ ?_ rfl fun hstate => absurd hstate (by simp)
    exact lt_of_lt_of_le Nat.one_pos (le_max_right _ 1)
  all_goals exact h

/-- **An input that does not stall a live core keeps it live.** -/
theorem live_step (h : c.Live) (ev : Event) (hev : c.Unstalled ev) : (c.step ev).Live := by
  cases ev with
  | connected => exact live_onConnected h hev
  | disconnected =>
    show c.onDisconnected.core.Live
    rw [core_onDisconnected]
    refine live_of_cleared ⟨rfl, rfl⟩ ?_ rfl fun hstate => absurd hstate (by simp)
    exact lt_of_lt_of_le Nat.one_pos (le_max_right _ 1)
  | beginHandshake =>
    show c.beginHandshake.core.Live
    rw [core_beginHandshake]
    exact live_onSendLine h _
  | streamProgram lines => exact live_onStreamProgram h lines
  | sendLine line => exact live_onSendLine h line
  | realtime cmd =>
    refine live_onRealtime h cmd fun hcmd => ?_
    subst hcmd
    exact hev
  | response response =>
    refine live_react (live_adoptState (live_learnRxBuffer h response ?_) response ?_) response
    · intro body rx hbody
      subst hbody
      exact fun hpinned hrx => hev hpinned rx hrx
    · intro body hbody
      subst hbody
      rcases c.learnRxBuffer_cases (.status body) with hsame | ⟨_, _, hmessage, -⟩
      · show (c.learnRxBuffer (.status body)).state = .hold →
          (c.learnRxBuffer (.status body)).program ≠ [] → _
        rw [hsame]
        exact hev
      · exact absurd hmessage (by simp)

theorem live_start (pinned : Option ℕ) : (start pinned).Live := by
  cases pinned with
  | none =>
    exact live_of_cleared ⟨rfl, rfl⟩ (by decide) rfl fun hstate => absurd hstate (by decide)
  | some bytes =>
    refine live_of_cleared ⟨rfl, rfl⟩ ?_ rfl fun hstate =>
      absurd hstate (show ConnectionState.disconnected ≠ .streaming by decide)
    exact lt_of_lt_of_le Nat.one_pos (le_max_right bytes 1)

/-! ## A live core completes -/

/-- The lines written during a run. -/
def writtenRun : ProtocolCore → List Event → List Line
  | _, [] => []
  | c, ev :: evs => writtenLines (c.handle ev).out ++ writtenRun (c.step ev) evs

/-- An `ok` to a core that streams is an answer, and nothing else. -/
theorem handle_ok_of_streaming (h : c.state = .streaming) :
    c.handle (.response .ok) = (Turn.mk c [.response .ok]).onAck false := by
  show react (adoptState ⟨c.learnRxBuffer .ok, _⟩ .ok) .ok = _
  have hlearn : c.learnRxBuffer .ok = c := by
    unfold learnRxBuffer
    split <;> simp_all
  have hadopt : adoptState (Turn.mk c [.response .ok]) .ok = Turn.mk c [.response .ok] := by
    rcases adoptState_cases (Turn.mk c [.response .ok]) .ok with
      hsame | ⟨hstate, -⟩ | ⟨body, state, hbody, -⟩
    · exact hsame
    · exact absurd (h.symm.trans hstate) (by decide)
    · exact absurd hbody (by simp)
  rw [hlearn, hadopt]
  rfl

/-- An `ok` with something in flight frees the oldest line; what follows is the
same for a line of the program and for one of the console. -/
theorem exists_onAck_ok (t : Turn) {len : ℕ} {tail : List ℕ}
    (hflow : t.core.flow.inflight = len :: tail) :
    ∃ c : ProtocolCore, t.onAck false = (Turn.mk c t.out).streamOn
      ∧ c.state = t.core.state ∧ c.program = t.core.program ∧ c.flow.inflight = tail := by
  cases hkind : t.core.inflightKinds.headD .other with
  | other => exact ⟨_, t.onAck_of_other false hflow hkind, rfl, rfl, rfl⟩
  | program =>
    refine ⟨_, t.onAck_of_program hflow hkind, ?_, ?_, ?_⟩
    · rw [state_bumped]
      rfl
    · rw [program_bumped]
      rfl
    · rw [flow_bumped]
      rfl

/-- One answer to a live core that streams: it sends a first part of what is queued,
and either is done or streams on with one line less to wait for. -/
theorem Live.answered (h : c.Live) (hstate : c.state = .streaming) :
    ∃ sent rest, c.program = sent ++ rest
      ∧ writtenLines (c.handle (.response .ok)).out = sent
      ∧ (c.step (.response .ok)).program = rest
      ∧ (((c.step (.response .ok)).state = .idle ∧ rest = [])
        ∨ ((c.step (.response .ok)).state = .streaming
          ∧ (c.step (.response .ok)).flow.inflight.length + 1
              = c.flow.inflight.length + sent.length)) := by
  obtain ⟨len, tail, hflow⟩ := List.exists_cons_of_ne_nil (h.awaited hstate)
  obtain ⟨k, hack, hkstate, hkprogram, hkflow⟩ :=
    exists_onAck_ok (Turn.mk c [.response .ok]) hflow
  have hhandle := (handle_ok_of_streaming hstate).trans hack
  unfold step
  rw [hhandle]
  have hkstreaming : k.state = .streaming := hkstate.trans hstate
  rcases (Turn.mk k [.response .ok]).streamOn_cases with
    ⟨hnot, -⟩ | ⟨-, sent, rest, hsplit, hout, -, -, hcase⟩
  · exact absurd hkstreaming hnot
  refine ⟨sent, rest, hkprogram.symm.trans hsplit, by rw [hout]; rfl, ?_⟩
  rcases hcase with ⟨-, rfl, hcore⟩ | ⟨-, hcore⟩
  · rw [hcore]
    exact ⟨rfl, .inl ⟨rfl, rfl⟩⟩
  · rw [hcore]
    refine ⟨rfl, .inr ⟨hkstreaming, ?_⟩⟩
    show (k.flow.inflight ++ sent.map List.length).length + 1 = _
    rw [hkflow, hflow, List.length_append, List.length_map, List.length_cons]
    omega

/-- **A live core that streams completes**: the answers to the lines in flight and
to the lines queued, or fewer, take it to idle, and what they send is the rest of
the program. -/
theorem Live.completes (h : c.Live) (hstate : c.state = .streaming) :
    ∃ n ≤ c.flow.inflight.length + c.program.length,
      ((List.replicate n (Event.response .ok)).foldl step c).state = .idle
        ∧ ((List.replicate n (Event.response .ok)).foldl step c).program = []
        ∧ c.writtenRun (List.replicate n (.response .ok)) = c.program := by
  induction hsize : c.flow.inflight.length + c.program.length generalizing c with
  | zero =>
    have hempty : c.flow.inflight = [] := by
      rw [← List.length_eq_zero_iff]
      omega
    exact absurd hempty (h.awaited hstate)
  | succ size ih =>
    obtain ⟨sent, rest, hsplit, hout, hrest, hcase⟩ := h.answered hstate
    rcases hcase with ⟨hidle, rfl⟩ | ⟨hstreaming, hlen⟩
    · refine ⟨1, by omega, hidle, hrest, ?_⟩
      show writtenLines _ ++ [] = c.program
      rw [hout, hsplit]
    · have hlive := live_step h (.response .ok) trivial
      obtain ⟨n, hn, hdone, hprogram, hwritten⟩ := ih hlive hstreaming (by
        rw [hrest]
        rw [hsplit, List.length_append] at hsize
        omega)
      refine ⟨n + 1, by omega, hdone, hprogram, ?_⟩
      rw [List.replicate_succ]
      show writtenLines _ ++ writtenRun _ _ = c.program
      rw [hout, hwritten, hrest, hsplit]

/-- **Streaming does not stall**: in every run of inputs that do not stall it, the
core progresses, and if it streams, answers alone complete the program. -/
theorem progressing_run (pinned : Option ℕ) (events : List Event)
    (hallowed : Allowed step Unstalled (start pinned) events) :
    let c := events.foldl step (start pinned)
    c.Progressing
      ∧ (c.state = .streaming →
          ∃ n ≤ c.flow.inflight.length + c.program.length,
            ((List.replicate n (Event.response .ok)).foldl step c).state = .idle
              ∧ ((List.replicate n (Event.response .ok)).foldl step c).program = []
              ∧ c.writtenRun (List.replicate n (.response .ok)) = c.program) := by
  have hkeep : ∀ (c : ProtocolCore) (ev : Event), c.Live → c.Unstalled ev → (c.step ev).Live :=
    fun _ ev hc hev => live_step hc ev hev
  have hlive := hallowed.invariant hkeep (live_start pinned)
  exact ⟨hlive.progressing, hlive.completes⟩

/-! ## Two runs -/

/-- The bytes of a short line. -/
def shortLine : List UInt8 := [0x47, 0x30]

/-- A program of one line, held and resumed while the line is in flight. -/
def heldRun : List Event :=
  [.connected, .beginHandshake, .response .ok, .streamProgram [shortLine],
    .realtime .feedHold, .realtime .cycleStart]

theorem progressing_heldRun :
    (heldRun.foldl step (start none)).Progressing
      ∧ ((heldRun.foldl step (start none)).state = .streaming →
          ∃ n ≤ 1, ((List.replicate n (Event.response .ok)).foldl step
            (heldRun.foldl step (start none))).state = .idle) := by
  have hallowed : Allowed step Unstalled (start none) heldRun :=
    ⟨rfl, trivial, trivial, trivial, trivial, fun _ => by decide, trivial⟩
  obtain ⟨hprogress, hdone⟩ := progressing_run none heldRun hallowed
  refine ⟨hprogress, fun hstate => ?_⟩
  obtain ⟨n, hn, hidle, -⟩ := hdone hstate
  exact ⟨n, hn, hidle⟩

/-- The same program, resumed after its line was answered. -/
def drainedHoldRun : List Event :=
  [.connected, .beginHandshake, .response .ok, .streamProgram [shortLine],
    .realtime .feedHold, .response .ok, .realtime .cycleStart]

/-- **A hold that outlasts the lines in flight stalls**: the resumed core streams
with nothing in flight. -/
theorem not_progressing_drainedHoldRun :
    ¬(drainedHoldRun.foldl step (start none)).Progressing := by
  intro h
  exact h.awaited (by decide) (by decide)

end ProtocolCore

end Galdr.Host
