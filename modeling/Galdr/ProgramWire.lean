import Galdr.GcodeParser
import Galdr.ProgramRelease
import Galdr.ProgramText
import Galdr.ReceivePath

/-!
# A program on the wire

The host cuts a file into lines, trims the ends that a line still has and writes each
with one line feed. The firmware takes the real-time bytes out and frames the rest. The
two are made apart: the host does not look for a byte that the firmware takes, for a
carriage return inside a line, or for the length of a line.

A line that the host releases reaches the consumer as one line of the same meaning exactly
when it is `Clean`, whatever the tasks of the receive path do in between
(`survives_iff_clean`). A question mark in a comment is a status report, and the line
behind it one byte shorter (`not_survives`).
-/

namespace Galdr

/-! ## What the receive path has read -/

namespace Comms.Receiver

/-- The framer behind what the pipe holds. -/
def framer (s : Receiver) : LineReader Received := (s.reader.frame Received.byte s.pipe).1

/-- The lines among what a stream brought. -/
def lineContents (events : List (LineEvent Received)) : List (List Received) :=
  events.filterMap fun event => match event with
    | .line content => some content
    | _ => none

/-- The lines of what was read, taken by the consumer or on their way to it. -/
def linesRead (s : Receiver) : List (List Received) :=
  (s.handled.map Prod.fst ++ (s.queue ++ s.sending.toList)).map Framed.content
    ++ lineContents (s.reader.frame Received.byte s.pipe).2

/-- No reset and no stop is under way. -/
structure Quiet (s : Receiver) : Prop where
  /-- The assembler is not signalled. -/
  lineReset : s.lineReset = false
  /-- The consumer is not signalled a reset. -/
  softReset : s.softReset = false
  /-- The consumer is not signalled a stop. -/
  programStop : s.programStop = false
  /-- The consumer is not at a stop. -/
  phase : s.phase ≠ .stopping

/-- The byte that a step reads. -/
def byteRead : Action → List UInt8
  | .read byte => [byte]
  | _ => []

/-- The bytes that a run reads. -/
def bytesRead (actions : List Action) : List UInt8 := actions.flatMap byteRead

/-- A step has read `bytes`, and lost none. -/
structure Reads (s : Receiver) (bytes : List UInt8) (s' : Receiver) : Prop where
  /-- No reset and no stop is under way. -/
  quiet : s'.Quiet
  /-- No reset was read. -/
  epoch : s'.epoch = s.epoch
  /-- The pipe holds no more than the bytes. -/
  pipe : s'.pipe.length ≤ s.pipe.length + bytes.length
  /-- They are framed behind what was read before. -/
  framer : s'.framer = (s.framer.frame Received.byte (bytes.map (⟨·, s.epoch⟩))).1
  /-- Their lines are behind those that were read before. -/
  lines : s'.linesRead = s.linesRead
    ++ lineContents (s.framer.frame Received.byte (bytes.map (⟨·, s.epoch⟩))).2

variable {s s' s'' : Receiver}

theorem lineContents_append (events events' : List (LineEvent Received)) :
    lineContents (events ++ events') = lineContents events ++ lineContents events' :=
  List.filterMap_append ..

/-- What changes neither the framer nor the lines reads nothing. -/
theorem Quiet.same (hquiet : s'.Quiet) (hepoch : s'.epoch = s.epoch)
    (hpipe : s'.pipe.length ≤ s.pipe.length) (hframer : s'.framer = s.framer)
    (hlines : s'.linesRead = s.linesRead) : s.Reads [] s' where
  quiet := hquiet
  epoch := hepoch
  pipe := hpipe
  framer := hframer
  lines := hlines.trans (List.append_nil _).symm

theorem Quiet.refl (h : s.Quiet) : s.Reads [] s := h.same rfl le_rfl rfl rfl

theorem Reads.trans {bytes bytes' : List UInt8} (h : s.Reads bytes s')
    (h' : s'.Reads bytes' s'') : s.Reads (bytes ++ bytes') s'' where
  quiet := h'.quiet
  epoch := h'.epoch.trans h.epoch
  pipe := by
    have := h.pipe
    have := h'.pipe
    rw [List.length_append]
    omega
  framer := by rw [h'.framer, h.framer, h.epoch, List.map_append, LineReader.frame_append]
  lines := by
    rw [h'.lines, h.lines, h.framer, h.epoch, List.map_append, LineReader.frame_append,
      lineContents_append, List.append_assoc]

/-- An ordinary byte is put into the pipe if there is room. -/
theorem Quiet.readByte (h : s.Quiet) {byte : UInt8} (hclass : classifyRealtime byte = none)
    (hroom : s.pipe.length < rxPipeCapacity) : s.Reads [byte] (s.readByte byte) := by
  have hread : s.readByte byte = { s with pipe := s.pipe ++ [⟨byte, s.epoch⟩] } := by
    unfold Receiver.readByte
    rw [hclass]
    exact if_pos hroom
  rw [hread]
  refine ⟨⟨h.lineReset, h.softReset, h.programStop, h.phase⟩, rfl, ?_, ?_, ?_⟩
  · exact (List.length_append ..).le
  · show (s.reader.frame Received.byte (s.pipe ++ [⟨byte, s.epoch⟩])).1 = _
    rw [LineReader.frame_append]
    rfl
  · show _ ++ lineContents (s.reader.frame Received.byte (s.pipe ++ [⟨byte, s.epoch⟩])).2 = _
    rw [LineReader.frame_append, lineContents_append, ← List.append_assoc]
    rfl

/-- The assembler loses no line. -/
theorem Quiet.runAssembler (h : s.Quiet) : s.Reads [] s.runAssembler := by
  unfold Receiver.runAssembler
  cases hsending : s.sending with
  | some line =>
    dsimp only
    split
    · refine Quiet.same ⟨h.lineReset, h.softReset, h.programStop, h.phase⟩ rfl le_rfl rfl ?_
      simp [linesRead, hsending]
    · exact h.refl
  | none =>
    cases hpipe : s.pipe with
    | nil =>
      dsimp only
      rw [h.lineReset, if_neg Bool.false_ne_true]
      exact h.refl
    | cons b rest =>
      dsimp only
      refine Quiet.same ⟨h.lineReset, h.softReset, h.programStop, h.phase⟩ rfl ?_ ?_ ?_
      · rw [hpipe]
        exact Nat.le_succ _
      · unfold framer
        rw [hpipe]
        rfl
      · unfold linesRead
        rw [hsending, hpipe, LineReader.frame_cons, lineContents_append]
        cases (s.reader.feed Received.byte b).2 with
        | pending | line | overflow => simp [LineEvent.toList, lineContents]

/-- The consumer takes lines in order. -/
theorem Quiet.take (h : s.Quiet) {line : Framed} {rest : List Framed}
    (hqueue : s.queue = line :: rest) : s.Reads [] (s.take line rest) := by
  refine Quiet.same ⟨h.lineReset, h.softReset, h.programStop, ?_⟩ rfl le_rfl rfl ?_
  · show ConsumerPhase.handling ≠ .stopping
    decide
  · simp [linesRead, Receiver.take, hqueue]

/-- **A step loses nothing**: whatever task takes it, a step reads the byte it takes off the
wire, if there is room for it. -/
theorem Quiet.step (h : s.Quiet) (action : Action)
    (hread : ∀ byte ∈ byteRead action,
      classifyRealtime byte = none ∧ s.pipe.length < rxPipeCapacity) :
    s.Reads (byteRead action) (s.step action) := by
  cases action with
  | read byte =>
    obtain ⟨hclass, hroom⟩ := hread byte List.mem_cons_self
    exact h.readByte hclass hroom
  | assemble => exact h.runAssembler
  | consume wasInCycle homingEnabled =>
    unfold Receiver.step
    dsimp only
    split
    · cases hqueue : s.queue with
      | cons line rest => exact h.take hqueue
      | nil =>
        dsimp only
        rw [h.softReset, h.programStop, if_neg Bool.false_ne_true, if_neg Bool.false_ne_true]
        exact h.refl
    · exact h.refl
  | answerQuery =>
    unfold Receiver.step
    dsimp only
    split
    · cases hqueue : s.queue with
      | cons line rest => exact h.take hqueue
      | nil => exact h.refl
    · exact h.refl
  | abortLine wasInCycle homingEnabled =>
    unfold Receiver.step
    dsimp only
    rw [h.softReset, if_neg (by simp)]
    exact h.refl
  | stopLine =>
    unfold Receiver.step
    dsimp only
    rw [h.programStop, if_neg (by simp)]
    exact h.refl
  | finish =>
    unfold Receiver.step
    dsimp only
    split
    · refine Quiet.same ⟨h.lineReset, h.softReset, h.programStop, ?_⟩ rfl le_rfl rfl rfl
      show ConsumerPhase.waiting ≠ .stopping
      decide
    · exact h.refl
  | parked =>
    unfold Receiver.step
    dsimp only
    rw [if_neg h.phase]
    exact h.refl
  | resetPreempts =>
    unfold Receiver.step
    dsimp only
    rw [if_neg fun hphase => h.phase hphase.1]
    exact h.refl
  | setControl c => exact Quiet.same ⟨h.lineReset, h.softReset, h.programStop, h.phase⟩ rfl le_rfl rfl rfl

/-- **A run loses nothing**: in every order of the tasks, ordinary bytes that the pipe has room
for are framed behind what was read before. -/
theorem Quiet.run (h : s.Quiet) (actions : List Action)
    (hclass : ∀ byte ∈ bytesRead actions, classifyRealtime byte = none)
    (hroom : s.pipe.length + (bytesRead actions).length ≤ rxPipeCapacity) :
    s.Reads (bytesRead actions) (actions.foldl Receiver.step s) := by
  induction actions generalizing s with
  | nil => exact h.refl
  | cons action rest ih =>
    have hbytes : bytesRead (action :: rest) = byteRead action ++ bytesRead rest := rfl
    rw [hbytes] at hclass hroom ⊢
    rw [List.length_append] at hroom
    have hstep := h.step action fun byte hbyte =>
      ⟨hclass byte (List.mem_append_left _ hbyte), by
        have := List.length_pos_of_mem hbyte
        omega⟩
    have hpipe := hstep.pipe
    exact hstep.trans (ih hstep.quiet
      (fun byte hbyte => hclass byte (List.mem_append_right _ hbyte)) (by omega))

end Comms.Receiver

/-! ## Ends that are still on a line -/

namespace Lexer

variable {ends : List UInt8}

theorem takeWhile_append_of_forall {p : UInt8 → Bool} (h : ∀ b ∈ ends, p b = false)
    (bytes : List UInt8) :
    (bytes ++ ends).takeWhile p = bytes.takeWhile p
      ∧ (bytes ++ ends).dropWhile p = bytes.dropWhile p ++ ends := by
  induction bytes with
  | nil =>
    cases ends with
    | nil => exact ⟨rfl, rfl⟩
    | cons b rest =>
      have hb := h b List.mem_cons_self
      simp [hb]
  | cons b bytes ih =>
    cases hb : p b with
    | true => simp [hb, ih]
    | false => simp [hb]

theorem skipInsignificant_ends (h : ∀ b ∈ ends, b = 13 ∨ b = 10) (inComment : Bool) :
    skipInsignificant inComment ends = [] := by
  induction ends generalizing inComment with
  | nil => rfl
  | cons b rest ih =>
    have hrest := fun inComment => ih (fun c hc => h c (List.mem_cons_of_mem b hc)) inComment
    unfold skipInsignificant
    cases inComment with
    | true => exact hrest _
    | false =>
      rw [if_neg Bool.false_ne_true, if_pos]
      · exact hrest _
      · rcases h b List.mem_cons_self with rfl | rfl <;> rfl

/-- Ends behind what is skipped are skipped with it, and stay behind the rest. -/
theorem skipInsignificant_append (h : ∀ b ∈ ends, b = 13 ∨ b = 10) (inComment : Bool)
    (bytes : List UInt8) :
    skipInsignificant inComment (bytes ++ ends)
      = if skipInsignificant inComment bytes = [] then []
        else skipInsignificant inComment bytes ++ ends := by
  induction bytes generalizing inComment with
  | nil => rw [List.nil_append, skipInsignificant_ends h]; exact (if_pos rfl).symm
  | cons b rest ih =>
    rw [List.cons_append]
    unfold skipInsignificant
    split_ifs with h₁ h₂ h₃ h₄
    all_goals first
      | exact (ih _).trans (if_pos ‹_›)
      | exact (ih _).trans (if_neg ‹_›)
      | rfl
      | simp_all

theorem advanceOverNumber_append (h : ∀ b ∈ ends, b = 13 ∨ b = 10) (bytes : List UInt8) :
    advanceOverNumber (bytes ++ ends)
      = ((advanceOverNumber bytes).1, (advanceOverNumber bytes).2 ++ ends) := by
  have hnumber : ∀ b ∈ ends, (isAsciiDigit b || b = '.'.toUInt8) = false := by
    intro b hb
    rcases h b hb with rfl | rfl <;> decide
  cases bytes with
  | nil =>
    cases ends with
    | nil => rfl
    | cons b rest =>
      have hsign : isSign b = false := by
        rcases h b List.mem_cons_self with rfl | rfl <;> decide
      have hb := hnumber b List.mem_cons_self
      simp only [List.nil_append, advanceOverNumber, hsign, Bool.false_eq_true, if_false]
      rw [List.takeWhile_cons_of_neg (by simpa using hb),
        List.dropWhile_cons_of_neg (by simpa using hb)]
  | cons b rest =>
    rw [List.cons_append]
    unfold advanceOverNumber
    dsimp only
    split
    · obtain ⟨htake, hdrop⟩ := takeWhile_append_of_forall hnumber rest
      rw [htake, hdrop]
    · obtain ⟨htake, hdrop⟩ := takeWhile_append_of_forall hnumber (b :: rest)
      rw [← List.cons_append, htake, hdrop]

variable {K : Type} [Field K]

/-- Ends behind the next word stay behind it. -/
theorem nextWord_append (h : ∀ b ∈ ends, b = 13 ∨ b = 10) (bytes : List UInt8) :
    nextWord (K := K) (bytes ++ ends)
      = (nextWord bytes).map fun word => (word.1, word.2 ++ ends) := by
  have hblank : ∀ b ∈ ends, (decide (b = 32) || decide (b = 9)) = false := by
    intro b hb
    rcases h b hb with rfl | rfl <;> decide
  unfold nextWord
  rw [skipInsignificant_append h]
  cases skipInsignificant false bytes with
  | nil => rfl
  | cons first rest =>
    rw [if_neg (List.cons_ne_nil _ _), List.cons_append]
    dsimp only
    rw [(takeWhile_append_of_forall hblank rest).2, advanceOverNumber_append h]
    dsimp only
    split
    · rfl
    split
    · rfl
    · cases parseF32 (K := K) (advanceOverNumber (rest.dropWhile fun b => b = 32 || b = 9)).1 <;>
        rfl

/-- **Ends behind a line change no word of it.** -/
theorem words_append (h : ∀ b ∈ ends, b = 13 ∨ b = 10) (line : List UInt8) :
    words (K := K) (line ++ ends) = words line := by
  -- by induction on the length of what is left: every word takes a byte
  induction hn : line.length using Nat.strong_induction_on generalizing line with
  | _ n ih =>
    rw [words_eq, words_eq line, nextWord_append h]
    cases hnext : nextWord (K := K) line with
    | none => rfl
    | some next =>
      obtain ⟨result, rest⟩ := next
      cases result with
      | error e => rfl
      | ok word =>
        have hlt := length_lt_of_nextWord hnext
        exact congrArg (_ :: ·) (ih rest.length (hn ▸ hlt) rest rfl)

/-- **An end before a line changes no word of it.** -/
theorem words_cons_end {b : UInt8} (h : b = 13 ∨ b = 10) (line : List UInt8) :
    words (K := K) (b :: line) = words line := by
  have hskip : skipInsignificant false (b :: line) = skipInsignificant false line := by
    rcases h with rfl | rfl <;> rfl
  have hnext : nextWord (K := K) (b :: line) = nextWord line := by
    unfold nextWord
    rw [hskip]
  rw [words_eq, hnext, ← words_eq]

end Lexer

namespace Wire

open Comms Host

/-! ## Clean lines -/

/-- A line without the ends at its end. -/
def trimEnds (line : List UInt8) : List UInt8 := line.rdropWhile fun b => b = 13 || b = 10

theorem encodeLine_eq (line : List UInt8) : encodeLine line = trimEnds line ++ [10] := rfl

/-- The line that the framer makes of a line, behind the end `pending`. -/
def wireBody (pending : PendingTerminator) (line : List UInt8) : List UInt8 :=
  LineReader.unswallowed id pending (trimEnds line)

/-- The line holds nothing that means something on the way. -/
structure Clean (pending : PendingTerminator) (line : List UInt8) : Prop where
  /-- No byte of it is a real-time command. -/
  ordinary : ∀ b ∈ trimEnds line, classifyRealtime b = none
  /-- No byte inside it ends a line. -/
  whole : ∀ b ∈ wireBody pending line, b ≠ 13 ∧ b ≠ 10
  /-- It is not too long. -/
  fits : (wireBody pending line).length ≤ maxLineLen

/-- The receiver is between two lines and has room for a line. -/
structure Ready (s : Receiver) (line : List UInt8) : Prop where
  /-- No reset and no stop is under way. -/
  quiet : s.Quiet
  /-- The line before has ended. -/
  between : s.framer.Between
  /-- The pipe has room, as the window of the host promises. -/
  room : s.pipe.length + (encodeLine line).length ≤ rxPipeCapacity

/-- A line of a file survives the wire. -/
structure Survives (K : Type) [Field K] [LinearOrder K] [FloorRing K] (s : Receiver)
    (line : List UInt8) : Prop where
  /-- No byte of it is taken as a real-time command. -/
  uncaptured : captured (encodeLine line) = []
  /-- It is framed as one line, which means what the line of the file does; and in whatever
  order the tasks run, that line is delivered behind those before it. -/
  delivered : ∃ content : List Received,
    (s.framer.frame Received.byte ((encodeLine line).map (⟨·, s.epoch⟩))).2 = [.line content]
      ∧ (∀ state : ModalState K, parseLine state (content.map Received.byte) = parseLine state line)
      ∧ ∀ actions, Receiver.bytesRead actions = encodeLine line →
        (actions.foldl Receiver.step s).linesRead = s.linesRead ++ [content]
          ∧ (actions.foldl Receiver.step s).Quiet
          ∧ (actions.foldl Receiver.step s).framer.Between

theorem trimEnds_append (line : List UInt8) :
    ∃ ends, (∀ b ∈ ends, b = 13 ∨ b = 10) ∧ line = trimEnds line ++ ends :=
  ⟨line.rtakeWhile fun b => b = 13 || b = 10, fun b hb => by simpa using List.mem_rtakeWhile_imp hb,
    (List.rdropWhile_append_rtakeWhile ..).symm⟩

/-- What is left of a line ends with no end. -/
theorem getLast_trimEnds {line : List UInt8} {b : UInt8} (hb : b ∈ (trimEnds line).getLast?) :
    b ≠ 13 ∧ b ≠ 10 := by
  obtain ⟨hne, rfl⟩ := List.mem_getLast?_eq_getLast hb
  have hlast := List.rdropWhile_last_not (fun b : UInt8 => decide (b = 13) || decide (b = 10)) line hne
  exact not_or.1 fun hb => hlast (by rw [Bool.or_eq_true, decide_eq_true_iff, decide_eq_true_iff]; exact hb)

/-- What the framer makes of a line means what the line does. -/
theorem parseLine_wireBody {K : Type} [Field K] [LinearOrder K] [FloorRing K]
    (pending : PendingTerminator) (line : List UInt8) (state : ModalState K) :
    parseLine state (wireBody pending line) = parseLine state line := by
  have hwords : Lexer.words (K := K) (wireBody pending line) = Lexer.words line := by
    obtain ⟨ends, hends, hline⟩ := trimEnds_append line
    conv_rhs => rw [hline, Lexer.words_append hends]
    unfold wireBody LineReader.unswallowed
    cases htrim : trimEnds line with
    | nil => rfl
    | cons b rest =>
      dsimp only
      split
      · rename_i hswallow
        have hb : b = 13 ∨ b = 10 := by
          unfold LineReader.swallows at hswallow
          rcases of_decide_eq_true hswallow with h | h
          · exact .inr h.2
          · exact .inl h.2
        exact (Lexer.words_cons_end hb rest).symm
      · rfl
  unfold parseLine
  rw [hwords]

/-- The bytes of a line on the wire are its own, and a line feed. -/
theorem captured_encodeLine (line : List UInt8) :
    captured (encodeLine line) = [] ↔ ∀ b ∈ trimEnds line, classifyRealtime b = none := by
  rw [encodeLine_eq]
  unfold captured
  rw [List.filterMap_append, List.append_eq_nil_iff, List.filterMap_eq_nil_iff]
  exact and_iff_left rfl

variable {s : Receiver} {line : List UInt8}

/-- The framer of a receiver makes the body of a line of it. -/
theorem framer_line_iff (line : List UInt8) (hbetween : s.framer.Between) :
    ((∃ content, (s.framer.frame Received.byte ((encodeLine line).map (⟨·, s.epoch⟩))).2
        = [.line content])
      ↔ (∀ b ∈ wireBody s.framer.pending line, b ≠ 13 ∧ b ≠ 10)
        ∧ (wireBody s.framer.pending line).length ≤ maxLineLen)
    ∧ ((∀ b ∈ wireBody s.framer.pending line, b ≠ 13 ∧ b ≠ 10) →
      (wireBody s.framer.pending line).length ≤ maxLineLen →
        (s.framer.frame Received.byte ((encodeLine line).map (⟨·, s.epoch⟩))).2
            = [.line ((wireBody s.framer.pending line).map (⟨·, s.epoch⟩))]
          ∧ (s.framer.frame Received.byte ((encodeLine line).map (⟨·, s.epoch⟩))).1.Between) := by
  have hmark : (Received.byte ∘ fun b => (⟨b, s.epoch⟩ : Received)) = id := rfl
  obtain ⟨r', hr', hfirst, hlast, hevents, hframer⟩ := @LineReader.frame_unswallowed _
    Received.byte _ hbetween ((trimEnds line).map (⟨·, s.epoch⟩)) ⟨10, s.epoch⟩
  rw [LineReader.unswallowed_map, hmark] at hfirst hlast hevents hframer
  rw [encodeLine_eq, List.map_append, List.map_singleton, hevents, hframer]
  have hend : (∀ a ∈ (wireBody s.framer.pending line).map fun b => (⟨b, s.epoch⟩ : Received),
      ¬LineReader.IsEnd Received.byte a)
      ↔ ∀ b ∈ wireBody s.framer.pending line, b ≠ 13 ∧ b ≠ 10 := by
    rw [List.forall_mem_map]
    exact forall₂_congr fun b _ => not_or
  constructor
  · rw [← hend, ← List.length_map (f := fun b => (⟨b, s.epoch⟩ : Received))]
    refine LineReader.frame_line_iff rfl hr' hfirst fun a ha => ?_
    rcases hlast with hlast | hlast
    · rw [hlast, List.getLast?_map] at ha
      obtain ⟨b, hb, rfl⟩ := Option.mem_map.1 ha
      exact not_or.2 (getLast_trimEnds hb)
    · rw [hlast] at ha
      cases ha
  · intro hwhole hfits
    obtain ⟨hline, hbetween', -⟩ := @LineReader.frame_line _ Received.byte _ _
      ⟨10, s.epoch⟩ rfl hr' (hend.2 hwhole) (by rwa [List.length_map])
    exact ⟨hline, hbetween'⟩

/-- **A line survives the wire exactly when it is clean**, in every order of the tasks. -/
theorem survives_iff_clean (K : Type) [Field K] [LinearOrder K] [FloorRing K]
    (h : Ready s line) : Survives K s line ↔ Clean s.framer.pending line := by
  obtain ⟨hiff, hframed⟩ := framer_line_iff line h.between
  constructor
  · rintro ⟨huncaptured, content, hevents, -, -⟩
    obtain ⟨hwhole, hfits⟩ := hiff.1 ⟨content, hevents⟩
    exact ⟨(captured_encodeLine line).1 huncaptured, hwhole, hfits⟩
  · rintro ⟨hordinary, hwhole, hfits⟩
    obtain ⟨hevents, hbetween⟩ := hframed hwhole hfits
    have hclass : ∀ b ∈ encodeLine line, classifyRealtime b = none := by
      intro b hb
      rcases List.mem_append.1 (encodeLine_eq line ▸ hb) with hb | hb
      · exact hordinary b hb
      · rw [List.mem_singleton.1 hb]
        rfl
    refine ⟨(captured_encodeLine line).2 hordinary, _, hevents, fun state => ?_, ?_⟩
    · rw [List.map_map]
      show parseLine state ((wireBody s.framer.pending line).map id) = _
      rw [List.map_id, parseLine_wireBody]
    · intro actions hactions
      have hreads := h.quiet.run actions (by rwa [hactions]) (by rw [hactions]; exact h.room)
      rw [hactions] at hreads
      refine ⟨?_, hreads.quiet, ?_⟩
      · rw [hreads.lines, hevents]
        rfl
      · rw [hreads.framer]
        exact hbetween

/-! ## Files -/

/-- The lines of a file, as the host loads them. -/
def fileLines (text : List Char) : List (List UInt8) := (Text.lines text).map Text.utf8

/-- **A file survives the wire exactly where it is clean**: what an input writes of it, at any
point of any run, is a part of its lines, every line written joins the window once, and a
line that is written reaches the consumer as it is meant exactly when it is clean. -/
theorem file_survives_iff (K : Type) [Field K] [LinearOrder K] [FloorRing K] (text : List Char)
    (pinned : Option ℕ) (events : List Event) (ev : Event)
    (hload : ∀ lines, .streamProgram lines ∈ events ++ [ev] → lines = fileLines text) :
    ∃ sent : List (List UInt8), sent <:+: fileLines text
      ∧ releasedLines (events.foldl ProtocolCore.step (.start pinned)) ev = sent.map encodeLine
      ∧ (∃ base, base <:+ (events.foldl ProtocolCore.step (.start pinned)).flow.inflight
        ∧ ((events.foldl ProtocolCore.step (.start pinned)).step ev).flow.inflight
          = base ++ (writtenLines ((events.foldl ProtocolCore.step (.start pinned)).handle ev).out).map
              List.length)
      ∧ ∀ line ∈ sent, ∀ s : Receiver, Ready s line →
        (Survives K s line ↔ Clean s.framer.pending line) := by
  have hstart : (ProtocolCore.start pinned).program <:+ (fileLines text).map encodeLine := by
    cases pinned <;> exact List.nil_suffix
  have hrun := ProtocolCore.program_run events hstart fun lines hlines => by
    rw [hload lines (List.mem_append_left _ hlines)]
  have hstep := ProtocolCore.sends_step ev hrun fun lines hev => by
    rw [hload lines (List.mem_append_right _ (hev ▸ List.mem_cons_self))]
  obtain ⟨before, behind, hsplit⟩ := hstep.released
  obtain ⟨front, rest, hfront, hbefore, -⟩ := List.map_eq_append_iff.1 hsplit.symm
  obtain ⟨first, sent, hfirst, -, hsent⟩ := List.map_eq_append_iff.1 hbefore
  refine ⟨sent, ⟨first, rest, by rw [hfront, hfirst]⟩, hsent.symm, hstep.window, ?_⟩
  exact fun line _ s h => survives_iff_clean K h

/-- A move, with a comment that asks. -/
def askingText : List Char := "G1 X1 F100 (why?)\n".toList

/-- The line of `askingText`. -/
def askingLine : List UInt8 := Text.utf8 "G1 X1 F100 (why?)".toList

theorem file_survives_asking :
    ∃ sent : List (List UInt8), sent <:+: fileLines askingText
      ∧ releasedLines (.start none) (.streamProgram (fileLines askingText)) = sent.map encodeLine
      ∧ (∃ base, base <:+ (ProtocolCore.start none).flow.inflight
        ∧ ((ProtocolCore.start none).step (.streamProgram (fileLines askingText))).flow.inflight
          = base ++ (writtenLines ((ProtocolCore.start none).handle
              (.streamProgram (fileLines askingText))).out).map List.length)
      ∧ ∀ line ∈ sent, ∀ s : Receiver, Ready s line →
        (Survives ℚ s line ↔ Clean s.framer.pending line) :=
  file_survives_iff ℚ askingText none [] (.streamProgram (fileLines askingText))
    fun _ hlines => Event.streamProgram.inj (List.mem_singleton.1 hlines)

/-- **A question mark in a comment does not survive**: the host writes the line, and a firmware
that waits for it takes the question mark as a status report. -/
theorem not_survives :
    releasedLines (.start none) (.streamProgram (fileLines askingText)) = [encodeLine askingLine]
      ∧ captured (encodeLine askingLine) = [.statusReport]
      ∧ Ready (.start false) askingLine
      ∧ ¬Survives ℚ (.start false) askingLine := by
  have hcaptured : captured (encodeLine askingLine) = [.statusReport] := by decide +kernel
  refine ⟨by decide +kernel, hcaptured, ⟨⟨rfl, rfl, rfl, by decide⟩, ⟨rfl, rfl, by decide⟩,
    by decide +kernel⟩, fun h => ?_⟩
  have hnone := h.uncaptured
  rw [hcaptured] at hnone
  cases hnone

end Wire

end Galdr
