import Galdr.HostSteps

/-!
# What the host writes of a program

The lines of a program that an input writes are lines of the program that was loaded, in
its order, and each line that is written joins the window once (`sends_step`).
-/

namespace Galdr.Host

/-- The lines of the program that an input writes; a console line is none of them. -/
def releasedLines (c : ProtocolCore) (ev : Event) : List Line :=
  match ev with
  | .sendLine _ | .beginHandshake => []
  | ev => writtenLines (c.handle ev).out

namespace ProtocolCore

variable {c c' : ProtocolCore} {program : List Line}

/-- What is left of a program, and what was written, are parts of it, and what was written
has joined the window. -/
structure Sends (c : ProtocolCore) (program : List Line) (released written : List Line)
    (c' : ProtocolCore) : Prop where
  /-- What is left is an end of it. -/
  left : c'.program <:+ program
  /-- What was written of it is a part. -/
  released : released <:+: program
  /-- What was written has joined what is left of the window. -/
  window : ∃ base, base <:+ c.flow.inflight ∧ c'.flow.inflight = base ++ written.map List.length

/-- Nothing is written. -/
theorem Sends.nothing (hleft : c'.program <:+ program) (hwindow : c'.flow.inflight <:+ c.flow.inflight) :
    c.Sends program [] [] c' where
  left := hleft
  released := List.nil_infix
  window := ⟨_, hwindow, (List.append_nil _).symm⟩

/-- The head of what is left is written. -/
theorem Sends.head {sent : List Line} (rest : List Line) (base : List ℕ)
    (hsplit : sent ++ rest <:+ program)
    (hleft : c'.program = rest) (hbase : base <:+ c.flow.inflight)
    (hwindow : c'.flow.inflight = base ++ sent.map List.length) :
    c.Sends program sent sent c' where
  left := hleft ▸ (List.suffix_append sent rest).trans hsplit
  released := (List.prefix_append sent rest).isInfix.trans hsplit.isInfix
  window := ⟨base, hbase, hwindow⟩

theorem sends_onSendLine (line : List UInt8) (hprogram : c.program <:+ program) :
    c.Sends program [] (writtenLines (c.onSendLine line).out) (c.onSendLine line).core := by
  rcases c.onSendLine_cases line with ⟨hcore, hout⟩ | ⟨hcore, hout, -⟩
  · rw [hcore, hout]
    exact .nothing hprogram List.suffix_rfl
  · rw [hcore, hout]
    exact ⟨hprogram, List.nil_infix, c.flow.inflight, List.suffix_rfl, rfl⟩

theorem sends_onAck {t : Turn} {state : ConnectionState} (ht : t.core = { c with state := state })
    (hout : writtenLines t.out = []) (isError : Bool) (hprogram : c.program <:+ program) :
    c.Sends program (writtenLines (t.onAck isError).out) (writtenLines (t.onAck isError).out)
      (t.onAck isError).core := by
  rcases hflow : t.core.flow.inflight with _ | ⟨len, tail⟩
  · obtain ⟨⟨n, hcore⟩, hquiet⟩ := t.onAck_of_empty isError hflow
    rw [hquiet, hcore, hout, ht]
    exact .nothing hprogram List.suffix_rfl
  · have htail : tail <:+ c.flow.inflight := by
      have hinflight : c.flow.inflight = len :: tail := by
        rw [← hflow, ht]
      rw [hinflight]
      exact List.suffix_cons len tail
    rcases t.onAck_cases isError hflow with
      ⟨-, -, hcore, hquiet⟩ | ⟨base, sent, rest, state', hbase, hsplit, hcore, -, hsent, -⟩
    · rw [hquiet, hcore, hout]
      refine .nothing List.nil_suffix ?_
      show (t.core.acked len tail).bumped.flow.inflight <:+ _
      rw [flow_bumped]
      exact htail
    · have hkept : base.program = c.program ∧ base.flow.inflight = tail := by
        have hacked : (t.core.acked len tail).program = c.program
            ∧ (t.core.acked len tail).flow.inflight = tail := by
          rw [acked, ht]
          exact ⟨rfl, rfl⟩
        rw [hbase]
        split
        · rw [flow_bumped]
          refine ⟨?_, hacked.2⟩
          unfold bumped
          split <;> exact hacked.1
        · exact hacked
      rw [hsent, hout, hcore, List.nil_append]
      refine .head rest tail ?_ rfl htail ?_
      · rw [← hsplit, hkept.1]
        exact hprogram
      · show base.flow.inflight ++ _ = _
        rw [hkept.2]

/-- **What an input writes of a program** is a part of it, and joins the window once. -/
theorem sends_step (ev : Event) (hprogram : c.program <:+ program)
    (hload : ∀ lines, ev = .streamProgram lines → lines.map encodeLine = program) :
    c.Sends program (releasedLines c ev) (writtenLines (c.handle ev).out) (c.step ev) := by
  cases ev with
  | connected =>
    have hout : writtenLines (c.handle .connected).out = [] := by
      show writtenLines ((Turn.mk _ []).transition .connecting).out = []
      rw [Turn.writtenLines_transition]
      rfl
    show c.Sends program (writtenLines (c.handle .connected).out) _ c.onConnected.core
    rw [hout, core_onConnected]
    exact .nothing hprogram List.suffix_rfl
  | disconnected =>
    have hout : writtenLines (c.handle .disconnected).out = [] := by
      show writtenLines ((Turn.mk _ []).transition .disconnected).out = []
      rw [Turn.writtenLines_transition]
      rfl
    show c.Sends program (writtenLines (c.handle .disconnected).out) _ c.onDisconnected.core
    rw [hout, core_onDisconnected]
    exact .nothing List.nil_suffix List.nil_suffix
  | beginHandshake =>
    show c.Sends program [] (writtenLines c.beginHandshake.out) c.beginHandshake.core
    rw [writtenLines_beginHandshake, core_beginHandshake]
    exact sends_onSendLine _ hprogram
  | sendLine line => exact sends_onSendLine line hprogram
  | streamProgram lines =>
    show c.Sends program (writtenLines (c.onStreamProgram lines).out) _ (c.onStreamProgram lines).core
    rcases c.onStreamProgram_cases lines with
      ⟨⟨state, hcore, -⟩, hout⟩ | ⟨sent, rest, hsplit, -, -, hcore, hout, -⟩
    · rw [show writtenLines (c.handle (.streamProgram lines)).out = [] from hout, hout, hcore]
      exact .nothing List.nil_suffix List.suffix_rfl
    · rw [show writtenLines (c.handle (.streamProgram lines)).out = sent from hout, hout, hcore]
      refine .head rest c.flow.inflight ?_ rfl List.suffix_rfl rfl
      rw [hsplit, hload lines rfl]
  | realtime cmd =>
    show c.Sends program (writtenLines (c.onRealtime cmd).out) (writtenLines (c.onRealtime cmd).out)
      (c.onRealtime cmd).core
    rw [writtenLines_onRealtime]
    cases hresets : cmd.resets with
    | true =>
      obtain ⟨state, hcore, -⟩ := core_onRealtime_of_resets c hresets
      rw [hcore]
      exact .nothing List.nil_suffix List.nil_suffix
    | false =>
      obtain ⟨state, hcore, -⟩ := core_onRealtime_of_not_resets c hresets
      rw [hcore]
      exact .nothing hprogram List.suffix_rfl
  | response response =>
    show c.Sends program (writtenLines (c.handle (.response response)).out) _
      (c.handle (.response response)).core
    cases hanswer : response.isAnswer with
    | true =>
      obtain ⟨t, hhandle, ⟨state, ht, -⟩, hout⟩ := handle_answer (c := c) hanswer
      rw [hhandle]
      exact sends_onAck ht hout _ hprogram
    | false =>
      by_cases hbanner : ∃ text, response = .banner text
      · obtain ⟨text, rfl⟩ := hbanner
        obtain ⟨hout, hcore⟩ := handle_banner (c := c) text
        rw [hout, show (c.handle (.response (.banner text))).core = _ from hcore]
        exact .nothing List.nil_suffix List.nil_suffix
      · obtain ⟨hout, base, state, hbase, hcore, -⟩ := handle_push (c := c) hanswer
          fun text ht => hbanner ⟨text, ht⟩
        rw [hout, show (c.handle (.response response)).core = _ from hcore]
        have hlearn : (c.learnRxBuffer response).program = c.program
            ∧ (c.learnRxBuffer response).flow.inflight = c.flow.inflight := by
          rcases c.learnRxBuffer_cases response with hsame | ⟨_, _, -, -, -, hsame⟩
          · rw [hsame]
            exact ⟨rfl, rfl⟩
          · rw [hsame]
            exact ⟨rfl, rfl⟩
        rcases hbase with rfl | rfl
        · exact .nothing (hlearn.1 ▸ hprogram) (hlearn.2 ▸ List.suffix_rfl)
        · exact .nothing List.nil_suffix (hlearn.2 ▸ List.suffix_rfl)

/-- What is left of a program is an end of it, in every run that loads no other. -/
theorem program_run (events : List Event) (hprogram : c.program <:+ program)
    (hload : ∀ lines, .streamProgram lines ∈ events → lines.map encodeLine = program) :
    (events.foldl step c).program <:+ program := by
  induction events generalizing c with
  | nil => exact hprogram
  | cons ev rest ih =>
    refine ih ?_ fun lines hlines => hload lines (List.mem_cons_of_mem ev hlines)
    exact (sends_step ev hprogram fun lines hev => hload lines (hev ▸ List.mem_cons_self)).left

end ProtocolCore

end Galdr.Host
