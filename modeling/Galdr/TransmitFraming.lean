import Galdr.UsbTransmit

/-!
# Whether a response is a line of its own

A response that was completed is on the wire as a whole, and one of a single packet is there as a
whole or not at all. A longer one can be given up between two packets, and then its first packets
are on the wire without the end of the line. The host takes the next response for the rest of that
line: an `ok` is lost in it (`line_of_its_own_iff`).
-/

namespace Galdr.Comms.UsbTx

open Galdr.Host (LineReassembler)
open Galdr.Host.LineReassembler (linesOf begunBy Plain)

/-! ## What is on the wire -/

theorem step_true (now : ℕ) (deadline : Option ℕ) : step true now deadline = (.advance, none) :=
  rfl

theorem step_false (now : ℕ) (deadline : Option ℕ) :
    (step false now deadline).1 = .yield ∨ (step false now deadline).1 = .stall := by
  unfold step usbTxPollAction
  dsimp only
  rw [if_neg Bool.false_ne_true, if_neg Bool.false_ne_true]
  dsimp only
  split
  · exact .inr rfl
  · exact .inl rfl

/-- What holds of the response that is written. -/
structure Writing (fifo : Fifo) (w : Write) : Prop where
  pos_le : w.pos ≤ w.response.bytes.length
  committed_le : w.committed ≤ w.pos
  filling : fifo.filling = (w.response.bytes.take w.pos).drop w.committed
  aligned : w.stage ≠ .commit → usbTxPacketBytes ∣ w.committed
  push : w.stage = .push → w.pos < w.response.bytes.length ∧ w.pos < w.committed + usbTxPacketBytes
  flush : w.stage = .flush → w.committed < w.pos
  whole : w.stage ≠ .push → usbTxPacketBytes ∣ w.pos ∨ w.pos = w.response.bytes.length
  commit : w.stage = .commit → w.committed = w.pos
  /-- While a packet waits for the host, nothing has been pushed after it. -/
  free : fifo.committed ≠ none → w.committed = w.pos

/-- What holds of a response that has been written or given up. -/
structure Ended (e : Sent) : Prop where
  le : e.committed ≤ e.response.bytes.length
  completed : e.outcome = .completed → e.committed = e.response.bytes.length
  packets : usbTxPacketBytes ∣ e.committed ∨ e.committed = e.response.bytes.length

/-- What holds of every state of a run. -/
structure Inv (s : Writer) : Prop where
  wire : s.fifo.stream = s.onWire.flatten
  ended : ∀ e ∈ s.log, Ended e
  idle : s.write = none → s.fifo.filling = []
  writing : ∀ w ∈ s.write, Writing s.fifo w

namespace Inv

variable {s : Writer} {w : Write}

theorem onWire_some (log : List Sent) (fifo : Fifo) (w : Write) :
    (Writer.mk fifo (some w) log).onWire.flatten
      = (log.map fun e => e.response.bytes.take e.committed).flatten
        ++ w.response.bytes.take w.committed := by
  unfold Writer.onWire
  rw [List.flatten_append]
  exact congrArg _ (List.append_nil _)

theorem onWire_finish (s : Writer) (w : Write) (outcome : WriteOutcome) :
    (s.finish w outcome).onWire.flatten
      = (s.log.map fun e => e.response.bytes.take e.committed).flatten
        ++ w.response.bytes.take w.committed := by
  unfold Writer.onWire Writer.finish
  rw [List.map_append, List.map_singleton]
  simp only [Option.map_none, Option.toList_none, List.append_nil, List.flatten_append,
    List.flatten_singleton]

/-- The end of a response of which nothing is left in the buffer. -/
theorem finish (hinv : Inv s) (hw : s.write = some w) {w' : Write} {outcome : WriteOutcome}
    (hresponse : w'.response = w.response) (hcommitted : w'.committed = w.committed)
    (hempty : s.fifo.filling = [])
    (hpackets : usbTxPacketBytes ∣ w.committed ∨ w.committed = w.response.bytes.length)
    (hcompleted : outcome = .completed → w.committed = w.response.bytes.length) :
    Inv (s.finish w' outcome) := by
  obtain ⟨fifo, write, log⟩ := s
  obtain rfl : write = some w := hw
  have hwriting := hinv.writing w rfl
  refine ⟨?_, ?_, fun _ => hempty, fun _ h => nomatch h⟩
  · rw [onWire_finish, hresponse, hcommitted, ← onWire_some log fifo w]
    exact hinv.wire
  · intro e he
    rcases List.mem_append.1 he with he | he
    · exact hinv.ended e he
    · obtain rfl := List.mem_singleton.1 he
      refine ⟨?_, ?_, ?_⟩
      · rw [hresponse, hcommitted]
        exact hwriting.committed_le.trans hwriting.pos_le
      · rw [hresponse, hcommitted]
        exact hcompleted
      · rw [hresponse, hcommitted]
        exact hpackets

/-- A step that commits nothing. -/
theorem update (hinv : Inv s) (hw : s.write = some w) {w' : Write} {fifo : Fifo}
    (hresponse : w'.response = w.response) (hcommitted : w'.committed = w.committed)
    (hstream : fifo.stream = s.fifo.stream) (hwriting : Writing fifo w') :
    Inv { s with fifo := fifo, write := some w' } := by
  obtain ⟨old, write, log⟩ := s
  obtain rfl : write = some w := hw
  refine ⟨?_, hinv.ended, (nomatch ·), ?_⟩
  · rw [onWire_some, hresponse, hcommitted, ← onWire_some log old w]
    exact hstream.trans hinv.wire
  · rintro _ ⟨⟩
    exact hwriting

/-- What follows a packet that has been committed. -/
theorem nextPacket (hinv : Inv s) (hw : s.write = some w) {w' : Write}
    (hresponse : w'.response = w.response) (hcommitted : w'.committed = w.committed)
    (hpos : w'.pos = w.pos) (hstage : w.stage = .commit) : Inv (s.nextPacket w') := by
  have hwriting := hinv.writing w hw
  have hall := hwriting.commit hstage
  have hempty : s.fifo.filling = [] := by
    rw [hwriting.filling, hall]
    exact List.drop_eq_nil_of_le (List.length_take_le _ _)
  unfold Writer.nextPacket
  by_cases hend : w'.pos = w'.response.bytes.length
  · rw [if_pos hend]
    rw [hpos, hresponse, ← hall] at hend
    exact hinv.finish hw hresponse hcommitted hempty (.inr hend) fun _ => hend
  · rw [if_neg hend]
    rw [hpos, hresponse] at hend
    have hdvd := (hwriting.whole (by rw [hstage]; decide)).resolve_right hend
    refine hinv.update hw hresponse hcommitted rfl ?_
    refine ⟨?_, ?_, ?_, ?_, ?_, (nomatch ·), fun h => absurd rfl h, (nomatch ·), ?_⟩
    · dsimp only
      rw [hpos, hresponse]
      exact hwriting.pos_le
    · dsimp only
      rw [hcommitted, hpos]
      exact hwriting.committed_le
    · dsimp only
      rw [hresponse, hpos, hcommitted]
      exact hwriting.filling
    · intro _
      dsimp only
      rw [hcommitted, hall]
      exact hdvd
    · intro _
      dsimp only
      rw [hpos, hresponse, hcommitted, hall]
      exact ⟨lt_of_le_of_ne hwriting.pos_le hend, Nat.lt_add_of_pos_right (by decide)⟩
    · intro _
      dsimp only
      rw [hcommitted, hpos]
      exact hall

/-- **Where a byte is refused the buffer is empty**: a packet waits for the host, and nothing has
been pushed after it. -/
theorem filling_of_refused (hwriting : Writing s.fifo w) (hstage : w.stage = .push)
    (hrefused : s.fifo.accepts = false) : s.fifo.filling = [] := by
  have hlength : s.fifo.filling.length = w.pos - w.committed := by
    rw [hwriting.filling, List.length_drop, List.length_take, min_eq_left hwriting.pos_le]
  have hpush := (hwriting.push hstage).2
  have hpacket : s.fifo.filling.length < usbTxPacketBytes := by
    have := hwriting.committed_le
    omega
  unfold Fifo.accepts at hrefused
  rw [decide_eq_true hpacket, Bool.and_true] at hrefused
  have hwaits : s.fifo.committed ≠ none := by
    intro hnone
    rw [hnone] at hrefused
    exact nomatch hrefused
  rw [← List.length_eq_zero_iff, hlength, hwriting.free hwaits, Nat.sub_self]

/-- The attempt to push a byte. -/
theorem pollPush (hinv : Inv s) (hw : s.write = some w) (hstage : w.stage = .push) {byte : UInt8}
    (hbyte : w.response.bytes[w.pos]? = some byte) (now : ℕ) : Inv (s.pollPush w byte now) := by
  have hwriting := hinv.writing w hw
  have hdvd := hwriting.aligned (by rw [hstage]; decide)
  unfold Writer.pollPush Fifo.writeByteNb
  cases haccepts : s.fifo.accepts with
  | false =>
    have hempty := filling_of_refused hwriting hstage haccepts
    rw [if_neg Bool.false_ne_true]
    dsimp only
    rcases step_false now w.deadline with hyield | hstall
    · rw [hyield]
      exact hinv.update hw rfl rfl rfl { hwriting with }
    · rw [hstall]
      exact hinv.finish hw rfl rfl hempty (.inl hdvd) (nomatch ·)
  | true =>
    rw [if_pos rfl]
    dsimp only
    rw [step_true]
    dsimp only
    obtain ⟨hlt, hpacket⟩ := hwriting.push hstage
    have hnone : s.fifo.committed = none := by
      unfold Fifo.accepts at haccepts
      rw [Bool.and_eq_true] at haccepts
      exact Option.isNone_iff_eq_none.1 haccepts.1
    have htake : w.response.bytes.take (w.pos + 1) = w.response.bytes.take w.pos ++ [byte] := by
      rw [List.take_add_one, hbyte]
      rfl
    refine hinv.update hw rfl rfl rfl ?_
    refine ⟨Nat.succ_le_of_lt hlt, hwriting.committed_le.trans (Nat.le_succ _), ?_, fun _ => hdvd,
      ?_, fun _ => Nat.lt_succ_of_le hwriting.committed_le, ?_, ?_, fun h => absurd hnone h⟩
    · dsimp only
      have hlength : w.committed ≤ (w.response.bytes.take w.pos).length := by
        rw [List.length_take, min_eq_left hwriting.pos_le]
        exact hwriting.committed_le
      rw [htake, List.drop_append_of_le_length hlength, ← hwriting.filling]
    · intro hpush
      have hlast : ¬((w.pos + 1) % usbTxPacketBytes = 0 ∨ w.pos + 1 = w.response.bytes.length) := by
        intro h
        dsimp only at hpush
        rw [if_pos h] at hpush
        exact nomatch hpush
      rw [not_or] at hlast
      refine ⟨lt_of_le_of_ne (Nat.succ_le_of_lt hlt) hlast.2, ?_⟩
      refine lt_of_le_of_ne (Nat.succ_le_of_lt hpacket) fun heq => hlast.1 ?_
      dsimp only at heq
      rw [heq]
      exact Nat.mod_eq_zero_of_dvd (hdvd.add (dvd_refl _))
    · intro hflush
      dsimp only at hflush ⊢
      by_cases hlast : (w.pos + 1) % usbTxPacketBytes = 0 ∨ w.pos + 1 = w.response.bytes.length
      · exact hlast.imp_left Nat.dvd_of_mod_eq_zero
      · rw [if_neg hlast] at hflush
        exact absurd rfl hflush
    · intro hcommit
      dsimp only at hcommit
      split at hcommit <;> exact nomatch hcommit

/-- The commit of a packet. -/
theorem pollFlush (hinv : Inv s) (hw : s.write = some w) (hstage : w.stage = .flush)
    (registered : Bool) : Inv (s.pollFlush w registered) := by
  have hwriting := hinv.writing w hw
  have hlt := hwriting.flush hstage
  have hnone : s.fifo.committed = none := by
    by_contra hsome
    exact absurd (hwriting.free hsome) (Nat.ne_of_lt hlt)
  have hcommitted : Inv { s with
      fifo := s.fifo.wrDone
      write := some { w with committed := w.pos, stage := .commit } } := by
    obtain ⟨fifo, write, log⟩ := s
    obtain rfl : write = some w := hw
    refine ⟨?_, hinv.ended, (nomatch ·), ?_⟩
    · rw [onWire_some]
      have hwire := hinv.wire
      rw [onWire_some] at hwire
      unfold Fifo.stream Fifo.wrDone at *
      dsimp only at *
      rw [hnone, Option.getD_none, List.append_nil] at hwire
      rw [hnone, Option.getD_none, List.nil_append, Option.getD_some, hwire, hwriting.filling,
        List.append_assoc]
      congr 1
      conv_rhs => rw [← List.take_append_drop w.committed (w.response.bytes.take w.pos)]
      rw [List.take_take, min_eq_left hlt.le]
    · rintro _ ⟨⟩
      refine ⟨hwriting.pos_le, le_rfl, ?_, fun h => absurd rfl h, (nomatch ·), (nomatch ·),
        fun _ => hwriting.whole (by rw [hstage]; decide), fun _ => rfl, fun _ => rfl⟩
      exact (List.drop_eq_nil_of_le (List.length_take_le _ _)).symm
  unfold Writer.pollFlush
  cases registered with
  | true =>
    exact hcommitted.nextPacket rfl rfl rfl rfl rfl
  | false => exact hcommitted

/-- The wait for a commit to register. -/
theorem pollCommit (hinv : Inv s) (hw : s.write = some w) (hstage : w.stage = .commit) (now : ℕ)
    (registered : Bool) : Inv (s.pollCommit w now registered) := by
  have hwriting := hinv.writing w hw
  have hall := hwriting.commit hstage
  unfold Writer.pollCommit
  cases registered with
  | true =>
    rw [step_true]
    exact hinv.nextPacket hw rfl rfl rfl hstage
  | false =>
    dsimp only
    rcases step_false now w.deadline with hyield | hstall
    · rw [hyield]
      exact hinv.update hw rfl rfl rfl { hwriting with }
    · rw [hstall]
      refine hinv.finish hw rfl rfl ?_ ?_ (nomatch ·)
      · rw [hwriting.filling, hall]
        exact List.drop_eq_nil_of_le (List.length_take_le _ _)
      · rw [hall]
        exact hwriting.whole (by rw [hstage]; decide)

/-- One step. -/
theorem next (hinv : Inv s) (event : Event) : Inv (s.next event) := by
  cases event with
  | drain =>
    refine ⟨?_, hinv.ended, hinv.idle, fun w hw => ?_⟩
    · exact (Fifo.stream_drain s.fifo).trans hinv.wire
    · have hwriting := hinv.writing w hw
      exact { hwriting with free := fun h => absurd rfl h }
  | receive response =>
    unfold Writer.next
    cases hw : s.write with
    | some w =>
      exact hinv
    | none =>
      obtain ⟨fifo, write, log⟩ := s
      obtain rfl : write = none := hw
      refine ⟨?_, hinv.ended, (nomatch ·), ?_⟩
      · have hwire := hinv.wire
        unfold Writer.onWire at hwire
        rw [Option.map_none, Option.toList_none, List.append_nil] at hwire
        rw [onWire_some]
        exact hwire.trans (List.append_nil _).symm
      · rintro _ ⟨⟩
        exact ⟨Nat.zero_le _, le_rfl, hinv.idle rfl, fun _ => dvd_zero _,
          fun _ => ⟨response.bytes_length_pos, (by decide : 0 < 0 + usbTxPacketBytes)⟩, (nomatch ·), fun h => absurd rfl h,
          (nomatch ·), fun _ => rfl⟩
  | poll now registered =>
    unfold Writer.next
    cases hw : s.write with
    | none => exact hinv
    | some w =>
      dsimp only
      cases hstage : w.stage with
      | push =>
        dsimp only
        cases hbyte : w.response.bytes[w.pos]? with
        | some byte => exact hinv.pollPush hw hstage hbyte now
        | none => exact hinv
      | flush => exact hinv.pollFlush hw hstage registered
      | commit => exact hinv.pollCommit hw hstage now registered

end Inv

/-- **The stream is made of whole packets.** -/
theorem run_inv (events : List Event) : Inv (Writer.run events) := by
  unfold Writer.run
  have hstart : Inv Writer.start :=
    ⟨rfl, List.forall_mem_nil _, fun _ => rfl, fun _ h => nomatch h⟩
  revert hstart
  generalize Writer.start = s
  intro hinv
  induction events generalizing s with
  | nil => exact hinv
  | cons event rest ih => exact ih _ (hinv.next event)

/-! ## Lines at the host -/

/-- What a response has put on the wire. -/
def Sent.onWire (e : Sent) : List UInt8 := e.response.bytes.take e.committed

/-- **Every response is a line of its own**: the lines of the host are those of what each response
has put on the wire, one that was completed has put there its lines, and one of a single packet that
was given up is there as a whole or not at all. -/
structure LineOfItsOwn (s : Writer) : Prop where
  lines : linesOf s.fifo.stream = s.onWire.flatMap linesOf
  completed : ∀ e ∈ s.log, e.outcome = .completed → linesOf e.onWire = e.response.lines
  single : ∀ e ∈ s.log, e.response.bytes.length ≤ usbTxPacketBytes → e.outcome = .stalled →
    e.onWire = [] ∨ e.onWire = e.response.bytes

theorem Ended.onWire_completed {e : Sent} (h : Ended e) (hcompleted : e.outcome = .completed) :
    e.onWire = e.response.bytes := by
  unfold Sent.onWire
  rw [h.completed hcompleted]
  exact List.take_length

/-- A response of a single packet is on the wire as a whole or not at all. -/
theorem Ended.onWire_single {e : Sent} (h : Ended e)
    (hlength : e.response.bytes.length ≤ usbTxPacketBytes) :
    e.onWire = [] ∨ e.onWire = e.response.bytes := by
  unfold Sent.onWire
  obtain hdvd | hall := h.packets
  · rcases Nat.eq_zero_or_pos e.committed with hzero | hpos
    · left
      rw [hzero, List.take_zero]
    · right
      have hle := Nat.le_of_dvd hpos hdvd
      exact List.take_of_length_le (hlength.trans hle)
  · right
    rw [hall]
    exact List.take_length

/-- **When every response is a line of its own.** In every run it is just when no response that has
put the beginning of a line on the wire and not its end comes before one that has put the end of a
line there. -/
theorem line_of_its_own_iff (events : List Event) :
    LineOfItsOwn (Writer.run events)
      ↔ (Writer.run events).onWire.Pairwise fun a b => begunBy a = [] ∨ linesOf b = [] := by
  have hinv := run_inv events
  have hplain : ∀ stretch ∈ (Writer.run events).onWire, Plain stretch := by
    intro stretch hstretch
    rcases List.mem_append.1 hstretch with hlog | hwrite
    · obtain ⟨e, -, rfl⟩ := List.mem_map.1 hlog
      exact e.response.plain_take _
    · obtain ⟨w, -, rfl⟩ := Option.map_eq_some_iff.1 (Option.mem_toList.1 hwrite)
      exact w.response.plain_take _
  rw [← LineReassembler.lines_flatten_iff hplain, ← hinv.wire]
  refine ⟨LineOfItsOwn.lines, fun hlines => ⟨hlines, fun e he hcompleted => ?_,
    fun e he hlength _ => (hinv.ended e he).onWire_single hlength⟩⟩
  rw [(hinv.ended e he).onWire_completed hcompleted, Response.linesOf_bytes]

/-! ## A response that is lost -/

/-- A status of two packets. -/
def longStatus : Response := ⟨[List.replicate 70 60], List.cons_ne_nil _ _, by decide +kernel⟩

/-- An acknowledgement. -/
def okResponse : Response := ⟨[[111, 107]], List.cons_ne_nil _ _, by decide +kernel⟩

/-- The host takes no packet for two seconds after the first of a status, and then it takes every
packet. -/
def stalledStatus : List Event :=
  .receive longStatus :: List.replicate 65 (.poll 0 true) ++ [.poll 0 true, .poll 2000000 true,
    .drain, .receive okResponse] ++ List.replicate 5 (.poll 2000000 true) ++ [.drain]

/-- The acknowledgement is completed, and it is the end of a line that the status has begun. -/
theorem ok_is_glued : ¬LineOfItsOwn (Writer.run stalledStatus) := by
  intro h
  exact absurd h.lines (by decide +kernel)

end Galdr.Comms.UsbTx
