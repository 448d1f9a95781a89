import Galdr.HostWindow

/-!
# What an answer counts for

The core keeps only whether a line in flight was a program's. While at most one
program has lines on their way that is enough: the answers it counts are those to
the lines of the current program, and only an error to one of them moves it to the
error state (`attributed_run`). A program streamed while lines of an earlier one are
on their way counts their answers as its own (`restreamRun`), and an error to a line
of a program an alarm has ended still moves the core to the error state
(`residualRun`).
-/

namespace Galdr.Host

open Runs ProtocolCore

namespace Session

variable {s : Session}

/-- The next reply is an error, and the line it answers belongs to a program that
has ended. -/
def Residual (s : Session) : Prop :=
  ∃ line code rest, s.replies = .answer line (some code) :: rest ∧ line.fresh = true
    ∧ line.owner.isSome = true ∧ s.core.programTotal = 0 ∧ s.core.state ≠ .error

/-- **One program at a time**: the host waits out its resets, streams a program only
when no line of another one is on its way, and reads no error to a line of a program
that has ended. -/
def Attributable (s : Session) (action : Action) : Prop :=
  s.Waits action ∧
    match action with
    | .host (.streamProgram _) => ∀ line ∈ s.outstanding, line.owner = none
    | .deliver => ¬s.Residual
    | _ => True

/-- **What attribution keeps.** -/
structure Attributed (s : Session) : Prop extends s.Matched where
  /-- A response that answers nothing is no answer. -/
  pushes : ∀ response, .push response ∈ s.replies → response.isAnswer = false
  /-- The program lines on their way belong to the current program. -/
  owned : ∀ line ∈ s.outstanding, ∀ p, line.owner = some p → p = s.streamed
  /-- While the program has not ended, its lines are answered, in flight or queued. -/
  active : s.core.programTotal ≠ 0 → s.AllFresh ∧ s.core.programAcked = s.answered
    ∧ s.core.programAcked + s.core.inflightKinds.count .program + s.core.program.length
      = s.core.programTotal
  /-- A program that has ended has no line left to send. -/
  ended : s.core.programTotal = 0 → s.core.program = []

/-! ## What keeps the attribution -/

/-- A step that leaves the program of the core, and sends nothing. -/
theorem Attributed.same (h : s.Attributed) {s' : Session} (hmatched : s'.Matched)
    (hpushes : ∀ response, .push response ∈ s'.replies → response.isAnswer = false)
    (hout : ∀ line ∈ s'.outstanding, line ∈ s.outstanding)
    (hstreamed : s'.streamed = s.streamed)
    (hanswered : s.core.programTotal ≠ 0 → s'.answered = s.answered)
    (htotal : s'.core.programTotal = s.core.programTotal)
    (hacked : s'.core.programAcked = s.core.programAcked)
    (hprogram : s'.core.program = s.core.program)
    (hkinds : s'.core.inflightKinds = s.core.inflightKinds) : s'.Attributed where
  toMatched := hmatched
  pushes := hpushes
  owned line hline p hp := by
    rw [hstreamed]
    exact h.owned line (hout line hline) p hp
  active hactive := by
    rw [htotal] at hactive
    obtain ⟨hfresh, hsame, hcount⟩ := h.active hactive
    rw [hacked, hprogram, hkinds, htotal, hanswered hactive]
    exact ⟨fun line hline => hfresh line (hout line hline), hsame, hcount⟩
  ended hended := by
    rw [hprogram]
    exact h.ended (htotal ▸ hended)

/-- A step after which no program is active. -/
theorem attributed_of_ended {s' : Session} (hmatched : s'.Matched)
    (hpushes : ∀ response, .push response ∈ s'.replies → response.isAnswer = false)
    (howned : ∀ line ∈ s'.outstanding, ∀ p, line.owner = some p → p = s'.streamed)
    (htotal : s'.core.programTotal = 0) (hprogram : s'.core.program = []) :
    s'.Attributed where
  toMatched := hmatched
  pushes := hpushes
  owned := howned
  active hactive := absurd htotal hactive
  ended _ := hprogram

/-- The lines that expire keep their owners. -/
theorem owned_expire (howned : ∀ line ∈ s.outstanding, ∀ p, line.owner = some p →
    p = s.streamed) :
    ∀ line ∈ s.expire.outstanding, ∀ p, line.owner = some p → p = s.streamed := by
  intro line hline p hp
  rw [outstanding_expire] at hline
  obtain ⟨line', hline', rfl⟩ := List.mem_map.1 hline
  exact howned line' hline' p hp

/-- The lines sent have the owner they are sent with. -/
theorem owner_sentLines {t : Turn} {owner : Option ℕ} {line : Sent}
    (h : line ∈ sentLines t owner) : line.owner = owner := by
  obtain ⟨_, -, rfl⟩ := List.mem_map.1 h
  rfl

/-- The program lines among those on their way, while none is stale. -/
theorem Matched.count_program (h : s.Matched) (hnone : ∀ line ∈ s.outstanding,
    line.owner = none) : s.core.inflightKinds.count .program = 0 := by
  rw [List.count_eq_zero, h.kindsOf]
  intro hmem
  obtain ⟨line, hline, hkind⟩ := List.mem_map.1 hmem
  rw [Sent.kind, hnone line (List.mem_filter.1 hline).1] at hkind
  exact absurd hkind (by decide)

/-! ## The inputs of the host -/

/-- A console line is no line of the program. -/
theorem Attributed.sendLine (h : s.Attributed) (hfresh : s.AllFresh) {t : Turn}
    {line : List UInt8} (hcore : t.core = (s.core.onSendLine line).core)
    (hout : writtenLines t.out = writtenLines (s.core.onSendLine line).out) :
    (s.sends t none).Attributed := by
  obtain ⟨hmatched, hall⟩ := h.toMatched.sendLine hfresh hcore hout
  have howned : ∀ other ∈ (s.sends t none).outstanding, ∀ p, other.owner = some p →
      p = s.streamed := by
    intro other hother p hp
    rw [outstanding_sends] at hother
    rcases List.mem_append.1 hother with hother | hother
    · exact h.owned other hother p hp
    · rw [owner_sentLines hother] at hp
      exact absurd hp (by simp)
  rcases s.core.onSendLine_cases line with ⟨hsame, -⟩ | ⟨hsent, -, -⟩
  · refine ⟨hmatched, h.pushes, howned, fun hactive => ⟨hall, ?_⟩, fun hended => ?_⟩
    · show t.core.programAcked = _ ∧ t.core.programAcked + t.core.inflightKinds.count _
        + t.core.program.length = t.core.programTotal
      rw [hcore, hsame]
      refine (h.active ?_).2
      rwa [← hsame, ← hcore]
    · show t.core.program = []
      rw [hcore, hsame]
      refine h.ended ?_
      rwa [← hsame, ← hcore]
  · have hfields : t.core.programTotal = s.core.programTotal
        ∧ t.core.programAcked = s.core.programAcked ∧ t.core.program = s.core.program
        ∧ t.core.inflightKinds.count .program
          = s.core.inflightKinds.count .program := by
      rw [hcore, hsent]
      refine ⟨rfl, rfl, rfl, ?_⟩
      show (s.core.inflightKinds ++ [InflightKind.other]).count .program = _
      rw [List.count_append]
      rfl
    obtain ⟨htotal, hacked, hprogram, hkinds⟩ := hfields
    refine ⟨hmatched, h.pushes, howned, fun hactive => ⟨hall, ?_⟩, fun hended => ?_⟩
    · show t.core.programAcked = _ ∧ t.core.programAcked + t.core.inflightKinds.count _
        + t.core.program.length = t.core.programTotal
      rw [htotal, hacked, hprogram, hkinds]
      exact (h.active (htotal ▸ hactive)).2
    · show t.core.program = []
      rw [hprogram]
      exact h.ended (htotal ▸ hended)

/-- A program streamed when no other program has a line on its way. -/
theorem Attributed.streamProgram (h : s.Attributed) (hfresh : s.AllFresh)
    (hnone : ∀ line ∈ s.outstanding, line.owner = none) (lines : List (List UInt8)) :
    (s.hostStep (.streamProgram lines)).Attributed := by
  obtain ⟨hmatched, hall⟩ := h.toMatched.streamProgram hfresh lines (s.streamed + 1)
  have hmatched' : (s.hostStep (.streamProgram lines)).Matched :=
    ⟨hmatched.toCounted, hmatched.lens, hmatched.kindsOf, hmatched.mode, hmatched.buffered,
      hmatched.ahead⟩
  have howned : ∀ other ∈ (s.hostStep (.streamProgram lines)).outstanding, ∀ p,
      other.owner = some p → p = s.streamed + 1 := by
    intro other hother p hp
    have hother : other ∈ (s.sends (s.core.onStreamProgram lines)
      (some (s.streamed + 1))).outstanding := hother
    rw [outstanding_sends] at hother
    rcases List.mem_append.1 hother with hother | hother
    · rw [hnone other hother] at hp
      exact absurd hp (by simp)
    · rw [owner_sentLines hother] at hp
      exact (Option.some.inj hp).symm
  rcases s.core.onStreamProgram_cases lines with
    ⟨⟨state, hcore, -⟩, -⟩ | ⟨sent, rest, -, -, -, hcore, -, -, -⟩
  · refine attributed_of_ended hmatched' h.pushes howned ?_ ?_
    · show (s.core.onStreamProgram lines).core.programTotal = 0
      rw [hcore]
      rfl
    · show (s.core.onStreamProgram lines).core.program = []
      rw [hcore]
      rfl
  · have hcount : (s.core.inflightKinds ++ List.replicate sent.length InflightKind.program).count
        .program = sent.length := by
      rw [List.count_append, h.toMatched.count_program hnone, List.count_replicate_self,
        Nat.zero_add]
    have hfields : (s.core.onStreamProgram lines).core.programTotal = (sent ++ rest).length
        ∧ (s.core.onStreamProgram lines).core.programAcked = 0
        ∧ (s.core.onStreamProgram lines).core.program = rest
        ∧ (s.core.onStreamProgram lines).core.inflightKinds.count .program
          = sent.length := by
      rw [hcore]
      exact ⟨rfl, rfl, rfl, hcount⟩
    obtain ⟨htotal, hacked, hprogram, hkinds⟩ := hfields
    refine ⟨hmatched', h.pushes, howned, fun _ => ⟨hall, hacked, ?_⟩, fun hended => ?_⟩
    · show (s.core.onStreamProgram lines).core.programAcked
        + (s.core.onStreamProgram lines).core.inflightKinds.count .program
        + (s.core.onStreamProgram lines).core.program.length
        = (s.core.onStreamProgram lines).core.programTotal
      rw [hacked, hkinds, hprogram, htotal, List.length_append, Nat.zero_add]
    · show (s.core.onStreamProgram lines).core.program = []
      have hzero : (s.core.onStreamProgram lines).core.programTotal = 0 := hended
      rw [htotal, List.length_append] at hzero
      rw [hprogram, ← List.length_eq_zero_iff]
      omega

/-- **An input of the host keeps the attribution.** -/
theorem Attributed.hostStep (h : s.Attributed) (ev : Event) (hlegal : Legal (.host ev))
    (hguard : s.Attributable (.host ev)) : (s.hostStep ev).Attributed := by
  have hmatched := h.toMatched.hostStep ev hlegal hguard.1
  cases ev with
  | disconnected => exact hlegal.elim
  | response r => exact hlegal.elim
  | connected =>
    have hquiet : writtenLines s.core.onConnected.out = [] := by simp [onConnected]
    have hstep : s.hostStep .connected = { s with core := s.core.onConnected.core } :=
      sends_of_quiet hquiet none
    rw [hstep] at hmatched ⊢
    exact h.same hmatched h.pushes (fun _ hl => hl) rfl (fun _ => rfl) (by simp) (by simp)
      (by simp) (by simp)
  | beginHandshake =>
    exact h.sendLine hguard.1 s.core.core_beginHandshake s.core.writtenLines_beginHandshake
  | sendLine line => exact h.sendLine hguard.1 rfl rfl
  | streamProgram lines => exact h.streamProgram hguard.1 hguard.2 lines
  | realtime cmd =>
    have hquiet : writtenLines (s.core.handle (.realtime cmd)).out = [] :=
      s.core.writtenLines_onRealtime cmd
    cases hresets : cmd.resets with
    | true =>
      obtain ⟨state, hcore, -⟩ := core_onRealtime_of_resets s.core hresets
      have hcore : (s.core.handle (.realtime cmd)).core = _ := hcore
      rw [hostStep_of_resets s hresets, sends_of_quiet hquiet, hcore] at hmatched ⊢
      refine attributed_of_ended hmatched (fun response hr => ?_) ?_ rfl rfl
      · exact h.pushes response (push_mem_expire hr)
      · intro line hline
        refine owned_expire h.owned line ?_
        rw [← outstanding_reset _ cmd]
        exact hline
    | false =>
      obtain ⟨state, hcore, -⟩ := core_onRealtime_of_not_resets s.core hresets
      have hcore : (s.core.handle (.realtime cmd)).core = { s.core with state := state } := hcore
      rw [hostStep_of_not_resets s hresets, sends_of_quiet hquiet, hcore] at hmatched ⊢
      exact h.same hmatched h.pushes (fun _ hl => hl) rfl (fun _ => rfl) rfl rfl rfl rfl

/-! ## The firmware -/

/-- A step of the firmware moves no core and no count. -/
theorem Attributed.of_firmware (h : s.Attributed) {s' : Session} (hmatched : s'.Matched)
    (hpushes : ∀ response, .push response ∈ s'.replies → response.isAnswer = false)
    (hout : ∀ line ∈ s'.outstanding, line ∈ s.outstanding)
    (hcore : s'.core = s.core) (hstreamed : s'.streamed = s.streamed)
    (hanswered : s'.answered = s.answered) : s'.Attributed :=
  h.same hmatched hpushes hout hstreamed (fun _ => hanswered) (by rw [hcore]) (by rw [hcore])
    (by rw [hcore]) (by rw [hcore])

theorem Attributed.receive (h : s.Attributed) (discard : Bool)
    (banner : Option (List Char)) : (s.step (.receive discard banner)).Attributed := by
  have hmatched := h.toMatched.receive discard banner
  cases hwire : s.wire with
  | nil =>
    rw [step_receive_nil hwire]
    exact h
  | cons item rest =>
    cases item with
    | line line =>
      rw [step_receive_line hwire] at hmatched ⊢
      refine h.of_firmware hmatched h.pushes (fun other hother => ?_) rfl rfl rfl
      have hsame : ({ s with wire := rest, buffer := s.buffer ++ [line] } :
          Session).outstanding = s.outstanding := by
        simp [outstanding, hwire, WireItem.line?]
      rw [← hsame]
      exact hother
    | reset cmd =>
      rw [step_receive_reset hwire] at hmatched ⊢
      refine h.of_firmware hmatched (fun response hr => ?_) (fun other hother => ?_) rfl rfl rfl
      · rcases List.mem_append.1 hr with hr | hr
        · exact h.pushes response hr
        · cases banner with
          | none => exact absurd hr (by simp)
          | some text =>
            obtain rfl : response = .banner text := by simpa using hr
            rfl
      · have hpush : (banner.map fun text => Reply.push (.banner text)).toList.filterMap
            Reply.line? = [] := by
          cases banner <;> rfl
        show other ∈ s.replies.filterMap _ ++ (s.buffer ++ s.wire.filterMap _)
        rw [hwire]
        have hother : other ∈ (s.replies ++ _).filterMap Reply.line?
          ++ ((if discard then [] else s.buffer) ++ rest.filterMap WireItem.line?) := hother
        rw [List.filterMap_append, hpush, List.append_nil] at hother
        cases discard
        · exact hother
        · simp only [if_true, List.nil_append, List.mem_append] at hother ⊢
          exact hother.imp_right .inr

theorem Attributed.answer (h : s.Attributed) (code : Option ℕ) :
    (s.step (.answer code)).Attributed := by
  have hmatched := h.toMatched.answer code
  cases hbuffer : s.buffer with
  | nil =>
    rw [step_answer_nil hbuffer]
    exact h
  | cons line rest =>
    rw [step_answer_cons hbuffer] at hmatched ⊢
    refine h.of_firmware hmatched (fun response hr => ?_) (fun other hother => ?_) rfl rfl rfl
    · exact h.pushes response (by simpa using hr)
    · have hsame : ({ s with buffer := rest, replies := s.replies ++ [.answer line code] } :
          Session).outstanding = s.outstanding := by
        simp [outstanding, hbuffer, Reply.line?]
      rw [← hsame]
      exact hother

theorem Attributed.push (h : s.Attributed) {response : Response}
    (hlegal : Legal (.push response)) : (s.step (.push response)).Attributed := by
  refine h.of_firmware (h.toMatched.push response) (fun other hr => ?_)
    (fun other hother => ?_) rfl rfl rfl
  · rcases List.mem_append.1 hr with hr | hr
    · exact h.pushes other hr
    · obtain rfl : other = response := by simpa using hr
      exact hlegal
  · have hsame : (s.step (.push response)).outstanding = s.outstanding := by
      simp [Session.step, outstanding, Reply.line?]
    rw [← hsame]
    exact hother

/-! ## What the host reads -/

/-- A bumped count, while a line of the program is still to be answered. -/
theorem programAcked_bumped {c : ProtocolCore} (h : c.programAcked < c.programTotal) :
    c.bumped.programAcked = c.programAcked + 1 := by
  unfold bumped
  rw [if_pos h]

@[simp] theorem programTotal_bumped (c : ProtocolCore) :
    c.bumped.programTotal = c.programTotal := by
  unfold bumped
  split <;> rfl

/-- The answer to a line that is not stale counts for the current program exactly
when the line is one of its lines. -/
theorem Attributed.deliver_fresh (h : s.Attributed) {line : Sent} {code : Option ℕ}
    {rest : List Reply} (hreplies : s.replies = .answer line code :: rest)
    (hfresh : line.fresh = true) : (s.deliverStep (.answer line code) rest).Attributed := by
  have hmatched : (s.deliverStep (.answer line code) rest).Matched := by
    rw [← step_deliver_cons hreplies]
    exact h.toMatched.deliver h.pushes
  have hall := (h.toMatched.deliver_fresh hreplies hfresh).2
  rcases h.toMatched.next hreplies with ⟨-, -, hinflight, hkinds⟩ | ⟨hstale, -, -⟩
  swap
  · exact absurd (hstale.symm.trans hfresh) Bool.false_ne_true
  generalize ((s.behind rest).outstanding.filter Sent.fresh).map Sent.len = lens at hinflight
  generalize ((s.behind rest).outstanding.filter Sent.fresh).map Sent.kind = kinds at hkinds
  have hanswer : (Reply.answer line code).response.isAnswer = true := by
    cases code <;> rfl
  obtain ⟨t, hhandle, ⟨state, hcore, -⟩, -⟩ := handle_answer (c := s.core) hanswer
  have hline : line ∈ s.outstanding := by
    simp [outstanding, hreplies, Reply.line?]
  have hpushes : ∀ response, .push response ∈ rest → response.isAnswer = false := by
    intro response hr
    refine h.pushes response ?_
    rw [hreplies]
    exact List.mem_cons_of_mem _ hr
  have howned : ∀ other ∈ ((s.behind rest).sends
      (s.core.handle (.response (Reply.answer line code).response))
      (some s.streamed)).outstanding, ∀ p, other.owner = some p → p = s.streamed := by
    intro other hother p hp
    rw [outstanding_sends] at hother
    rcases List.mem_append.1 hother with hother | hother
    · refine h.owned other ?_ p hp
      simp only [outstanding, behind, hreplies, List.filterMap_cons] at hother ⊢
      exact List.mem_cons_of_mem _ hother
    · rw [owner_sentLines hother] at hp
      exact (Option.some.inj hp).symm
  rw [deliverStep_answer] at hmatched ⊢
  rw [hhandle] at hmatched hall howned ⊢
  have htinflight : t.core.flow.inflight = line.len :: lens := by
    rw [hcore]
    exact hinflight
  have htkinds : t.core.inflightKinds = line.kind :: kinds := by
    rw [hcore]
    exact hkinds
  have hhead : t.core.inflightKinds.headD .other = line.kind := by
    rw [htkinds]
    rfl
  rcases t.onAck_cases (decide ((Reply.answer line code).response ≠ .ok)) htinflight with
    ⟨-, -, hack, -⟩ | ⟨base, sent, left, state', hbase, hprogram, hack, -, -, -⟩
  · refine attributed_of_ended hmatched hpushes howned ?_ ?_
    · show (t.onAck _).core.programTotal = 0
      rw [hack]
      rfl
    · show (t.onAck _).core.program = []
      rw [hack]
      rfl
  · rw [hhead] at hbase
    have htail : s.core.inflightKinds.count .program
        = (t.core.inflightKinds.tail.count .program)
          + (if line.kind = .program then 1 else 0) := by
      rw [hkinds, List.count_cons, htkinds]
      simp
    -- the base of the release is the core with the line answered
    have hbasefields : base.programTotal = s.core.programTotal
        ∧ base.program = s.core.program
        ∧ base.inflightKinds = t.core.inflightKinds.tail := by
      rw [hbase]
      split
      · rw [programTotal_bumped, program_bumped, inflightKinds_bumped, acked, hcore]
        exact ⟨rfl, rfl, rfl⟩
      · rw [acked, hcore]
        exact ⟨rfl, rfl, rfl⟩
    obtain ⟨hbtotal, hbprogram, hbkinds⟩ := hbasefields
    have htotal : (t.onAck (decide ((Reply.answer line code).response ≠ .ok))).core.programTotal
        = s.core.programTotal := by
      rw [hack]
      exact hbtotal
    refine ⟨hmatched, hpushes, howned, fun hactive => ?_, fun hended => ?_⟩
    · have hactive : s.core.programTotal ≠ 0 := by
        rw [← htotal]
        exact hactive
      obtain ⟨-, hacked, hcount⟩ := h.active hactive
      have hbacked : base.programAcked
          = if line.owner = some s.streamed then s.answered + 1 else s.answered := by
        cases howner : line.owner with
        | none =>
          have hkind : line.kind = .other := by simp [Sent.kind, howner]
          rw [hkind, if_neg (by decide)] at hbase
          rw [hbase, acked, hcore, if_neg (by simp)]
          exact hacked
        | some p =>
          have hkind : line.kind = .program := by simp [Sent.kind, howner]
          rw [hkind, if_pos rfl] at hbase htail
          rw [if_pos (by rw [h.owned line hline p howner])]
          have hlt : (t.core.acked line.len lens).programAcked
              < (t.core.acked line.len lens).programTotal := by
            rw [acked, hcore]
            show s.core.programAcked < s.core.programTotal
            omega
          rw [hbase, programAcked_bumped hlt, acked, hcore, ← hacked]
      refine ⟨hall, ?_, ?_⟩
      · show (t.onAck _).core.programAcked = _
        rw [hack]
        exact hbacked
      · show (t.onAck _).core.programAcked + (t.onAck _).core.inflightKinds.count .program
          + (t.onAck _).core.program.length = (t.onAck _).core.programTotal
        rw [htotal, hack]
        show base.programAcked
          + (base.inflightKinds ++ List.replicate sent.length InflightKind.program).count _
          + left.length = s.core.programTotal
        rw [List.count_append, List.count_replicate_self, hbkinds, hbacked]
        rw [hbprogram] at hprogram
        rw [hprogram, List.length_append] at hcount
        cases howner : line.owner with
        | none =>
          have hkind : line.kind = .other := by simp [Sent.kind, howner]
          rw [hkind, if_neg (by decide)] at htail
          rw [if_neg (by simp)]
          omega
        | some p =>
          have hkind : line.kind = .program := by simp [Sent.kind, howner]
          rw [hkind, if_pos rfl] at htail
          rw [if_pos (by rw [h.owned line hline p howner])]
          omega
    · have hnone : s.core.program = [] := by
        refine h.ended ?_
        rw [← htotal]
        exact hended
      rw [hbprogram, hnone] at hprogram
      show (t.onAck _).core.program = []
      rw [hack]
      exact (List.append_eq_nil_iff.1 hprogram.symm).2

/-- The answer to a stale line finds no active program. -/
theorem Attributed.deliver_stale (h : s.Attributed) {line : Sent} {code : Option ℕ}
    {rest : List Reply} (hreplies : s.replies = .answer line code :: rest)
    (hstale : line.fresh = false) : (s.deliverStep (.answer line code) rest).Attributed := by
  obtain ⟨hquiet, ⟨state, n, hcore, -⟩, hbehind, -⟩ := h.toMatched.deliver_stale hreplies hstale
  have hline : line ∈ s.outstanding := by
    simp [outstanding, hreplies, Reply.line?]
  have hinactive : ¬s.core.programTotal ≠ 0 := by
    intro hactive
    exact absurd (hstale.symm.trans ((h.active hactive).1 line hline)) Bool.false_ne_true
  rw [deliverStep_answer, sends_of_quiet hquiet, hcore]
  have hmatched : ({ s.behind rest with
      core := { s.core with state := state, trailingAcks := n } } : Session).Matched :=
    hbehind.congr_core rfl rfl rfl
  refine h.same ⟨hmatched.toCounted, hmatched.lens, hmatched.kindsOf, hmatched.mode,
    hmatched.buffered, hmatched.ahead⟩ (fun response hr => ?_) (fun other hother => ?_) rfl
    (fun hactive => absurd hactive hinactive) rfl rfl rfl rfl
  · refine h.pushes response ?_
    rw [hreplies]
    exact List.mem_cons_of_mem _ hr
  · have hother : other ∈ (s.behind rest).outstanding := hother
    simp only [outstanding, behind, hreplies, List.filterMap_cons] at hother ⊢
    exact List.mem_cons_of_mem _ hother

/-- **A reply read keeps the attribution.** -/
theorem Attributed.deliver (h : s.Attributed) : (s.step .deliver).Attributed := by
  have hmatched := h.toMatched.deliver h.pushes
  cases hreplies : s.replies with
  | nil =>
    rw [step_deliver_nil hreplies]
    exact h
  | cons reply rest =>
    rw [step_deliver_cons hreplies] at hmatched ⊢
    cases reply with
    | answer line code =>
      cases hfresh : line.fresh with
      | true => exact h.deliver_fresh hreplies hfresh
      | false => exact h.deliver_stale hreplies hfresh
    | push response =>
      have hsub : ∀ other, .push other ∈ rest → other.isAnswer = false := by
        intro other hr
        refine h.pushes other ?_
        rw [hreplies]
        exact List.mem_cons_of_mem _ hr
      have hno : response.isAnswer = false :=
        h.pushes response (by rw [hreplies]; exact List.mem_cons_self ..)
      have hout : (s.behind rest).outstanding = s.outstanding := by
        unfold outstanding
        rw [hreplies]
        rfl
      show (s.deliverStep (.push response) rest).Attributed
      have hmatched : (s.deliverStep (.push response) rest).Matched := hmatched
      by_cases hbanner : ∃ text, response = .banner text
      · obtain ⟨text, rfl⟩ := hbanner
        obtain ⟨hquiet, hcore⟩ := handle_banner (c := s.core) text
        have hcore : (s.core.handle (.response (.banner text))).core = _ := hcore
        have hsame : s.deliverStep (.push (.banner text)) rest
            = ((s.behind rest).sends (s.core.handle (.response (.banner text)))
                (some s.streamed)).expire := rfl
        rw [hsame, sends_of_quiet hquiet, hcore] at hmatched ⊢
        refine attributed_of_ended hmatched (fun other hr => hsub other (push_mem_expire hr))
          (owned_expire ?_) rfl rfl
        intro line hline
        refine h.owned line ?_
        rw [← hout]
        exact hline
      · obtain ⟨hquiet, base, state, hbase, hcore, -⟩ :=
          handle_push (c := s.core) hno fun text ht => hbanner ⟨text, ht⟩
        have hcore : (s.core.handle (.response response)).core = _ := hcore
        have hsame : s.deliverStep (.push response) rest
            = (s.behind rest).sends (s.core.handle (.response response)) (some s.streamed) := by
          rcases s.deliverStep_push response rest with hsame | ⟨htext, -⟩
          · exact hsame
          · exact absurd htext hbanner
        rw [hsame, sends_of_quiet hquiet, hcore] at hmatched ⊢
        have hlearn : (s.core.learnRxBuffer response).programTotal = s.core.programTotal
            ∧ (s.core.learnRxBuffer response).programAcked = s.core.programAcked
            ∧ (s.core.learnRxBuffer response).program = s.core.program
            ∧ (s.core.learnRxBuffer response).inflightKinds = s.core.inflightKinds := by
          rcases s.core.learnRxBuffer_cases response with hl | ⟨_, _, -, -, -, hl⟩
          · rw [hl]
            exact ⟨rfl, rfl, rfl, rfl⟩
          · rw [hl]
            exact ⟨rfl, rfl, rfl, rfl⟩
        have hmem : ∀ line ∈ (s.behind rest).outstanding, line ∈ s.outstanding := by
          intro line hline
          rwa [← hout]
        rcases hbase with rfl | rfl
        · exact h.same hmatched hsub hmem rfl (fun _ => rfl) hlearn.1 hlearn.2.1 hlearn.2.2.1
            hlearn.2.2.2
        · exact attributed_of_ended hmatched hsub
            (fun line hline => h.owned line (hmem line hline)) rfl rfl

/-- **A step that lets answers be told apart keeps the attribution.** -/
theorem Attributed.step (h : s.Attributed) (action : Action) (hlegal : Legal action)
    (hguard : s.Attributable action) : (s.step action).Attributed := by
  cases action with
  | host ev => exact h.hostStep ev hlegal hguard
  | receive discard banner => exact h.receive discard banner
  | answer code => exact h.answer code
  | push response => exact h.push hlegal
  | deliver => exact h.deliver

/-! ## The error state -/

/-- The core of a session moves with the inputs of the host. -/
theorem core_hostStep (s : Session) (ev : Event) : (s.hostStep ev).core = s.core.step ev := by
  cases ev with
  | realtime cmd =>
    cases hresets : cmd.resets with
    | true =>
      rw [hostStep_of_resets s hresets]
      rfl
    | false =>
      rw [hostStep_of_not_resets s hresets]
      rfl
  | _ => rfl

/-- An input of the host does not move its core to the error state. -/
theorem state_hostStep {ev : Event} (hlegal : Legal (.host ev))
    (herr : (s.hostStep ev).core.state = .error) : s.core.state = .error := by
  rw [core_hostStep] at herr
  have hline : ∀ line, (s.core.onSendLine line).core.state = .error → s.core.state = .error := by
    intro line hs
    rcases s.core.onSendLine_cases line with ⟨hcore, -⟩ | ⟨hcore, -, -⟩
    · rwa [hcore] at hs
    · rw [hcore] at hs
      exact hs
  cases ev with
  | disconnected => exact hlegal.elim
  | response r => exact hlegal.elim
  | connected =>
    rw [show s.core.step .connected = s.core.onConnected.core from rfl, core_onConnected] at herr
    exact absurd herr (by simp)
  | beginHandshake => exact hline _ herr
  | sendLine line => exact hline line herr
  | streamProgram lines =>
    rw [show s.core.step (.streamProgram lines) = (s.core.onStreamProgram lines).core
      from rfl] at herr
    rcases s.core.onStreamProgram_cases lines with
      ⟨⟨state, hcore, hstate⟩, -⟩ | ⟨sent, rest, -, -, -, hcore, -, -, -⟩
    · rw [hcore] at herr
      rcases hstate with rfl | rfl
      · exact herr
      · exact absurd herr (by simp)
    · rw [hcore] at herr
      exact absurd herr (by simp [released, loaded])
  | realtime cmd =>
    rw [show s.core.step (.realtime cmd) = (s.core.onRealtime cmd).core from rfl] at herr
    cases hresets : cmd.resets with
    | true =>
      obtain ⟨state, hcore, hstate⟩ := core_onRealtime_of_resets s.core hresets
      rw [hcore] at herr
      exact hstate herr
    | false =>
      obtain ⟨state, hcore, hstate⟩ := core_onRealtime_of_not_resets s.core hresets
      rw [hcore] at herr
      exact hstate herr

/-- A reply read moves the core to the error state only where it is an error that
answers a line of a program that is not stale. -/
theorem Attributed.state_deliver (h : s.Attributed) (hstate : s.core.state ≠ .error)
    {reply : Reply} {rest : List Reply} (hreplies : s.replies = reply :: rest)
    (herr : (s.core.handle (.response reply.response)).core.state = .error) :
    ∃ line code, reply = .answer line (some code) ∧ line.fresh = true
      ∧ line.owner = some s.streamed := by
  cases reply with
  | push response =>
    have hno : response.isAnswer = false :=
      h.pushes response (by rw [hreplies]; exact List.mem_cons_self ..)
    by_cases hbanner : ∃ text, response = .banner text
    · obtain ⟨text, rfl⟩ := hbanner
      have hcore : (s.core.handle (.response (.banner text))).core = _ :=
        (handle_banner (c := s.core) text).2
      rw [show (Reply.push (.banner text)).response = .banner text from rfl, hcore] at herr
      exact absurd herr (by simp)
    · obtain ⟨-, base, state, -, hcore, hkeep⟩ :=
        handle_push (c := s.core) hno fun text ht => hbanner ⟨text, ht⟩
      have hcore : (s.core.handle (.response response)).core = _ := hcore
      rw [show (Reply.push response).response = response from rfl, hcore] at herr
      exact absurd (hkeep herr) hstate
  | answer line code =>
    have hanswer : (Reply.answer line code).response.isAnswer = true := by
      cases code <;> rfl
    obtain ⟨t, hhandle, ⟨state, hcore, hsame⟩, -⟩ := handle_answer (c := s.core) hanswer
    rw [hhandle] at herr
    have htstate : t.core.state ≠ .error := by
      rw [hcore]
      rcases hsame with rfl | rfl
      · exact hstate
      · simp
    rcases h.toMatched.next hreplies with ⟨hfresh, -, hinflight, hkinds⟩ | ⟨-, -, hempty⟩
    · have htinflight := (congrArg (fun c => c.flow.inflight) hcore).trans hinflight
      rcases t.onAck_cases (decide ((Reply.answer line code).response ≠ .ok)) htinflight with
        ⟨hhead, hcode, -, -⟩ | ⟨base, sent, left, state', -, -, hack, hstate', -, -⟩
      · rw [hcore, hkinds] at hhead
        have hkind : line.kind = .program := hhead
        have hline : line ∈ s.outstanding := by
          simp [outstanding, hreplies, Reply.line?]
        cases code with
        | none => exact absurd hcode (by simp [Reply.response])
        | some code =>
          refine ⟨line, code, rfl, hfresh, ?_⟩
          cases howner : line.owner with
          | none => exact absurd hkind (by simp [Sent.kind, howner])
          | some p => rw [h.owned line hline p howner]
      · rw [hack] at herr
        have herr : state' = .error := herr
        rcases hstate' with rfl | rfl
        · exact absurd herr htstate
        · exact absurd herr (by simp)
    · have htempty : t.core.flow.inflight = [] := by
        rw [hcore]
        exact hempty
      obtain ⟨⟨n, hack⟩, -⟩ :=
        t.onAck_of_empty (decide ((Reply.answer line code).response ≠ .ok)) htempty
      rw [hack] at herr
      exact absurd herr htstate

/-- **The core enters the error state only at an error to a line of the program that
is active.** -/
theorem Attributed.error_step (h : s.Attributed) {action : Action} (hlegal : Legal action)
    (hguard : s.Attributable action) (hstate : s.core.state ≠ .error)
    (herr : (s.step action).core.state = .error) :
    ∃ line code rest, action = .deliver ∧ s.replies = .answer line (some code) :: rest
      ∧ line.owner = some s.streamed ∧ s.core.programTotal ≠ 0 := by
  cases action with
  | host ev => exact absurd (state_hostStep hlegal herr) hstate
  | push response => exact absurd herr hstate
  | receive discard banner =>
    have hcore : (s.step (.receive discard banner)).core = s.core := by
      simp only [Session.step]
      split <;> rfl
    rw [hcore] at herr
    exact absurd herr hstate
  | answer code =>
    have hcore : (s.step (.answer code)).core = s.core := by
      simp only [Session.step]
      split <;> rfl
    rw [hcore] at herr
    exact absurd herr hstate
  | deliver =>
    cases hreplies : s.replies with
    | nil =>
      rw [step_deliver_nil hreplies] at herr
      exact absurd herr hstate
    | cons reply rest =>
      rw [step_deliver_cons hreplies] at herr
      have hcore : (s.deliverStep reply rest).core
          = (s.core.handle (.response reply.response)).core := by
        cases reply with
        | answer line code =>
          rw [deliverStep_answer]
          rfl
        | push response =>
          rcases s.deliverStep_push response rest with hs | ⟨-, hs⟩ <;> rw [hs] <;> rfl
      rw [hcore] at herr
      obtain ⟨line, code, rfl, hfresh, howner⟩ := h.state_deliver hstate hreplies herr
      refine ⟨line, code, rest, rfl, rfl, howner, fun htotal => ?_⟩
      exact hguard.2 ⟨line, code, rest, hreplies, hfresh, by rw [howner]; rfl, htotal, hstate⟩

/-! ## Runs -/

theorem attributed_start (pinned : Option ℕ) : (start pinned).Attributed where
  toMatched := matched_start pinned
  pushes _ hr := absurd hr (by simp [start])
  owned _ hline := absurd hline (by simp [start, outstanding])
  active hactive := absurd (by cases pinned <;> rfl) hactive
  ended _ := by cases pinned <;> rfl

/-- **Attribution.** In every session that streams one program at a time, the answers
counted for the program that is active are those to its lines, and a step moves the
core to the error state only where it reads an error to one of them. -/
theorem attributed_run (pinned : Option ℕ) (actions : List Action)
    (hlegal : Allowed step (fun _ a => Legal a) (start pinned) actions)
    (hguard : Allowed step Attributable (start pinned) actions) :
    let s := actions.foldl step (start pinned)
    (s.core.programTotal ≠ 0 → s.core.programAcked = s.answered)
      ∧ ∀ action, Legal action → s.Attributable action → s.core.state ≠ .error →
          (s.step action).core.state = .error →
          ∃ line code rest, action = .deliver ∧ s.replies = .answer line (some code) :: rest
            ∧ line.owner = some s.streamed ∧ s.core.programTotal ≠ 0 := by
  have hkeep : ∀ (s : Session) (a : Action), s.Attributed → Legal a ∧ s.Attributable a →
      (s.step a).Attributed := fun s a hs ha => hs.step a ha.1 ha.2
  have h := (hlegal.and hguard).invariant hkeep (attributed_start pinned)
  refine ⟨fun hactive => (h.active hactive).2.1, fun action hl hg hstate herr => ?_⟩
  exact h.error_step hl hg hstate herr

/-! ## Three sessions -/

/-- A program of two lines; the first is answered. -/
def oneProgramRun : List Action :=
  [.host .connected, .host (.streamProgram [movesLine, movesLine]), .receive false none,
    .answer none, .deliver]

theorem attributed_oneProgramRun :
    (oneProgramRun.foldl step (start none)).core.programAcked
      = (oneProgramRun.foldl step (start none)).answered := by
  have hlegal : Allowed step (fun _ a => Legal a) (start none) oneProgramRun :=
    ⟨trivial, trivial, trivial, trivial, trivial, trivial⟩
  have hguard : Allowed step Attributable (start none) oneProgramRun := by
    refine ⟨⟨trivial, trivial⟩, ⟨show AllFresh _ by decide, ?_⟩, ⟨trivial, trivial⟩,
      ⟨trivial, trivial⟩, ⟨trivial, ?_⟩, trivial⟩
    · intro line hline
      have hnone : ((start none).step (.host .connected)).outstanding = [] := by decide
      exact absurd (hnone ▸ hline) (by simp)
    · intro ⟨line, code, rest, hreplies, _⟩
      have hhead : [Reply.answer ⟨3, some 1, true⟩ none] = .answer line (some code) :: rest :=
        hreplies
      exact absurd (List.cons.inj hhead).1 (by simp)
  exact (attributed_run none oneProgramRun hlegal hguard).1 (by decide)

/-- A program ends at an error while its second line is on its way, and another is
streamed; the firmware then answers the second line. -/
def restreamRun : List Action :=
  [.host .connected, .host (.streamProgram [movesLine, movesLine]), .receive false none,
    .receive false none, .answer (some 9), .deliver, .host (.streamProgram [movesLine]),
    .answer none, .deliver]

/-- An alarm ends a program, and the firmware answers its line with an error. -/
def residualRun : List Action :=
  [.host .connected, .host (.streamProgram [movesLine]), .receive false none,
    .push (.alarm 1), .deliver, .answer (some 9)]

/-- **A program streamed too early counts the answers of the one before it**, and a
residual error of a program an alarm has ended moves the core to the error state. -/
theorem not_attributed_restreamRun :
    ((restreamRun.foldl step (start none)).core.programTotal = 1
        ∧ (restreamRun.foldl step (start none)).core.programAcked = 1
        ∧ (restreamRun.foldl step (start none)).answered = 0)
      ∧ (residualRun.foldl step (start none)).core.programTotal = 0
      ∧ (residualRun.foldl step (start none)).core.state = .alarm
      ∧ ((residualRun.foldl step (start none)).step .deliver).core.state = .error := by
  exact ⟨⟨by decide, by decide, by decide⟩, by decide, by decide, by decide⟩

end Session

end Galdr.Host
