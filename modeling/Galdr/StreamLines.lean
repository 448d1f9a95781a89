import Galdr.LineFramer

/-!
# The lines of a stream

The engine that frames a stream of bytes is compared with a split of the stream as a whole: at each
carriage return, line feed, or pair of the two, with each stretch between two resets split by
itself. The engine answers each line of the split once, with its text or, where it is too long, with
a refusal. The refusal does not wait for the end of the line, so that a line that is broken off is
refused as well, if it is too long by then.
-/

namespace Galdr.Comms

/-! ## The split of a stream -/

section Split

variable {α : Type} {code : α → UInt8}

/-- The two symbols are a pair that ends one line. -/
def IsPair (code : α → UInt8) (a b : α) : Prop :=
  (code a = 13 ∧ code b = 10) ∨ (code a = 10 ∧ code b = 13)

instance (code : α → UInt8) (a b : α) : Decidable (IsPair code a b) :=
  inferInstanceAs (Decidable (_ ∨ _))

/-- The lines of a stream, and what is behind the last end of a line. -/
structure Lines (α : Type) where
  /-- The lines, without what ends them. -/
  lines : List (List α)
  /-- The line that has no end yet. -/
  rest : List α
  deriving DecidableEq

/-- A symbol in front of the first line. -/
def Lines.cons (a : α) : Lines α → Lines α
  | ⟨[], rest⟩ => ⟨[], a :: rest⟩
  | ⟨line :: lines, rest⟩ => ⟨(a :: line) :: lines, rest⟩

/-- An empty line in front. -/
def Lines.newline (s : Lines α) : Lines α := ⟨[] :: s.lines, s.rest⟩

/-- Split a stream into lines. -/
def splitLines (code : α → UInt8) : List α → Lines α
  | [] => ⟨[], []⟩
  | [a] => if LineReader.IsEnd code a then ⟨[[]], []⟩ else ⟨[], [a]⟩
  | a :: b :: rest =>
    if LineReader.IsEnd code a then
      if IsPair code a b then (splitLines code rest).newline
      else (splitLines code (b :: rest)).newline
    else (splitLines code (b :: rest)).cons a

/-- The end of a line that a symbol is, whose other half may follow. -/
def endOf (code : α → UInt8) (a : α) : PendingTerminator := if code a = 13 then .cr else .lf

theorem splitLines_inside {a : α} (h : ¬LineReader.IsEnd code a) (rest : List α) :
    splitLines code (a :: rest) = (splitLines code rest).cons a := by
  cases rest with
  | nil => exact if_neg h
  | cons b rest => exact if_neg h

theorem splitLines_end {a : α} (h : LineReader.IsEnd code a) (rest : List α) :
    splitLines code (a :: rest)
      = (splitLines code (LineReader.unswallowed code (endOf code a) rest)).newline := by
  cases rest with
  | nil => exact if_pos h
  | cons b rest =>
    have hpair : LineReader.swallows (endOf code a) (code b) = true ↔ IsPair code a b := by
      unfold LineReader.swallows endOf IsPair
      rcases h with h | h <;> simp [h]
    rw [splitLines, if_pos h, LineReader.unswallowed]
    by_cases hab : IsPair code a b
    · rw [if_pos hab, if_pos (hpair.2 hab)]
    · rw [if_neg hab, if_neg fun hswallow => hab (hpair.1 hswallow)]

end Split

/-! ## What the framer makes of a stream -/

namespace LineReader

variable {α : Type} {code : α → UInt8} {r : LineReader α} {held : List α}

/-- What a line comes to. -/
def verdict (line : List α) : LineEvent α :=
  if line.length ≤ maxLineLen then .line line else .overflow

/-- What a line that is broken off comes to. -/
def brokenOff (rest : List α) : List (LineEvent α) :=
  if rest.length ≤ maxLineLen then [] else [.overflow]

/-- What the lines behind a part of the first one come to, for which it has been answered if it is
too long by itself. -/
def eventsBehind (held : List α) : Lines α → List (LineEvent α)
  | ⟨[], rest⟩ => if held.length ≤ maxLineLen then brokenOff (held ++ rest) else []
  | ⟨line :: lines, rest⟩ =>
    (if held.length ≤ maxLineLen then [verdict (held ++ line)] else [])
      ++ lines.map verdict ++ brokenOff rest

theorem eventsBehind_nil (s : Lines α) :
    eventsBehind [] s = s.lines.map verdict ++ brokenOff s.rest := by
  obtain ⟨_ | ⟨line, lines⟩, rest⟩ := s <;> rfl

theorem eventsBehind_newline (held : List α) (s : Lines α) :
    eventsBehind held s.newline
      = (if held.length ≤ maxLineLen then [verdict held] else []) ++ eventsBehind [] s := by
  rw [eventsBehind_nil, Lines.newline, eventsBehind, List.append_nil, List.append_assoc]

/-- What a line comes to does not depend on where it is cut, where the part before is answered
once it is too long. -/
theorem eventsBehind_cons (held : List α) (a : α) (s : Lines α) :
    eventsBehind held (s.cons a)
      = (if held.length ≤ maxLineLen then brokenOff (held ++ [a]) else [])
        ++ eventsBehind (held ++ [a]) s := by
  have happend (line : List α) : held ++ a :: line = held ++ [a] ++ line :=
    (List.append_assoc held [a] line).symm
  have hlength : (held ++ [a]).length = held.length + 1 := List.length_append
  have hlong (line : List α) (h : ¬(held ++ [a]).length ≤ maxLineLen) :
      ¬(held ++ [a] ++ line).length ≤ maxLineLen := by
    rw [List.length_append]
    omega
  by_cases hshort : (held ++ [a]).length ≤ maxLineLen
  · have hlen : held.length ≤ maxLineLen := by omega
    have hpart : brokenOff (held ++ [a]) = [] := if_pos hshort
    cases s with | mk lines rest => cases lines with
    | nil =>
      rw [Lines.cons, eventsBehind, eventsBehind, happend, if_pos hlen, if_pos hlen, if_pos hshort,
        hpart, List.nil_append]
    | cons line lines =>
      rw [Lines.cons, eventsBehind, eventsBehind, happend, if_pos hlen, if_pos hlen, if_pos hshort,
        hpart, List.nil_append]
  · have hpart : brokenOff (held ++ [a]) = [.overflow] := if_neg hshort
    cases s with | mk lines rest => cases lines with
    | nil =>
      have hwhole : brokenOff (held ++ [a] ++ rest) = [.overflow] := if_neg (hlong rest hshort)
      rw [Lines.cons, eventsBehind, eventsBehind, happend, if_neg hshort, hpart, hwhole,
        List.append_nil]
    | cons line lines =>
      have hwhole : verdict (held ++ [a] ++ line) = .overflow := if_neg (hlong line hshort)
      rw [Lines.cons, eventsBehind, eventsBehind, happend, if_neg hshort, hpart, hwhole,
        List.nil_append, List.append_assoc]

/-- The framer holds the line so far, or has dropped it if it is too long. -/
structure Holds (r : LineReader α) (held : List α) : Prop where
  /-- What is too long is dropped. -/
  overflowed : r.overflowed = decide (¬held.length ≤ maxLineLen)
  /-- What is not is kept. -/
  kept : held.length ≤ maxLineLen → r.partialLine = held

theorem holds_new : Holds (new : LineReader α) [] := ⟨rfl, fun _ => rfl⟩

/-- The end of a line that was dropped leaves nothing. -/
theorem feed_end_clears {a : α} (hend : IsEnd code a)
    (hswallow : swallows r.pending (code a) = false) (hover : r.overflowed = true) :
    (r.feed code a).1.partialLine = [] ∧ (r.feed code a).1.pending = endOf code a := by
  unfold feed
  rw [if_neg (by simp [hswallow])]
  dsimp only
  rw [if_pos (show code a = 13 ∨ code a = 10 from hend), overflowed_rotate, if_pos hover]
  exact ⟨ite_self [], rfl⟩

/-- What an end of a line brings and leaves. -/
theorem feed_split_end {a : α} (h : Holds r held) (hend : IsEnd code a)
    (hswallow : swallows r.pending (code a) = false) :
    (r.feed code a).2.toList = (if held.length ≤ maxLineLen then [verdict held] else [])
      ∧ Holds (r.feed code a).1 [] ∧ (r.feed code a).1.pending = endOf code a := by
  by_cases hlen : held.length ≤ maxLineLen
  · have hover : r.overflowed = false := h.overflowed.trans (by simp [hlen])
    obtain ⟨hevent, hheld, hover', hpending⟩ := feed_end hend hswallow hover
    rw [hevent, if_pos hlen, h.kept hlen, verdict, if_pos hlen]
    exact ⟨rfl, ⟨hover', fun _ => hheld⟩, hpending⟩
  · have hover : r.overflowed = true := h.overflowed.trans (by simp [hlen])
    obtain ⟨hevent, hover'⟩ := feed_end_dropped hend hswallow hover
    obtain ⟨hheld, hpending⟩ := feed_end_clears hend hswallow hover
    rw [hevent, if_neg hlen]
    exact ⟨rfl, ⟨hover', fun _ => hheld⟩, hpending⟩

/-- What a symbol inside a line brings and leaves. -/
theorem feed_split_inside {a : α} (h : Holds r held) (hend : ¬IsEnd code a) :
    (r.feed code a).2.toList = (if held.length ≤ maxLineLen then brokenOff (held ++ [a]) else [])
      ∧ Holds (r.feed code a).1 (held ++ [a]) ∧ (r.feed code a).1.pending = .none := by
  have hlength : (held ++ [a]).length = held.length + 1 := by simp
  by_cases hlen : held.length ≤ maxLineLen
  · have hover : r.overflowed = false := h.overflowed.trans (by simp [hlen])
    have hkept := h.kept hlen
    rw [if_pos hlen, brokenOff, hlength]
    by_cases hroom : held.length < maxLineLen
    · obtain ⟨hevent, hheld, hover', hpending⟩ := feed_inside hend hover (by rwa [hkept])
      have hshort : (held ++ [a]).length ≤ maxLineLen := by rw [hlength]; exact hroom
      rw [hevent, if_pos (Nat.succ_le_of_lt hroom)]
      refine ⟨rfl, ⟨hover'.trans (decide_eq_false (not_not.2 hshort)).symm, fun _ => ?_⟩, hpending⟩
      rw [hheld, hkept]
    · obtain ⟨hevent, hover', hpending⟩ := feed_full hend hover (by rwa [hkept])
      have hlong : ¬(held ++ [a]).length ≤ maxLineLen := by rw [hlength]; exact hroom
      rw [hevent, if_neg fun hle => hroom (Nat.lt_of_succ_le hle)]
      exact ⟨rfl, ⟨hover'.trans (decide_eq_true hlong).symm, fun hle => absurd hle hlong⟩, hpending⟩
  · have hover : r.overflowed = true := h.overflowed.trans (by simp [hlen])
    have hlong : ¬(held ++ [a]).length ≤ maxLineLen := by rw [hlength]; omega
    obtain ⟨hevent, hover', hpending⟩ := feed_dropped hend hover
    rw [hevent, if_neg hlen]
    exact ⟨rfl, ⟨hover'.trans (decide_eq_true hlong).symm, fun hle => absurd hle hlong⟩, hpending⟩

/-- **The framer follows the split of the stream**, from any line that it holds. -/
theorem frame_split (h : Holds r held) (stream : List α) :
    (frame code r stream).2
      = eventsBehind held (splitLines code (unswallowed code r.pending stream)) := by
  have hclear (stream : List α) : unswallowed code .none stream = stream := by
    cases stream <;> rfl
  induction stream generalizing r held with
  | nil =>
    have hnil : eventsBehind held (splitLines code (unswallowed code r.pending []))
        = if held.length ≤ maxLineLen then brokenOff (held ++ []) else [] := rfl
    rw [hnil, List.append_nil, brokenOff]
    split <;> rfl
  | cons a stream ih =>
    rw [frame_cons]
    cases hswallow : swallows r.pending (code a) with
    | true =>
      rw [feed_swallowed hswallow, unswallowed, if_pos hswallow]
      have hnext := ih (r := { r with pending := .none }) ⟨h.overflowed, h.kept⟩
      rw [hclear] at hnext
      exact hnext
    | false =>
      rw [unswallowed, hswallow, if_neg Bool.false_ne_true]
      by_cases hend : IsEnd code a
      · obtain ⟨hevent, hholds, hpending⟩ := feed_split_end h hend hswallow
        rw [hevent, ih hholds, hpending, splitLines_end hend, eventsBehind_newline]
      · obtain ⟨hevent, hholds, hpending⟩ := feed_split_inside h hend
        rw [hevent, ih hholds, hpending, splitLines_inside hend, eventsBehind_cons, hclear]

end LineReader

/-! ## The engine -/

/-- The code of a line that is too long. -/
def errorLineOverflow : UInt8 := 15

/-- What a byte brings the driver of the engine. -/
inductive EngineEvent
  | none
  | acceptLine (content : List UInt8)
  | reject (code : UInt8)
  deriving DecidableEq, Repr

/-- An event, if there is one. -/
def EngineEvent.toList : EngineEvent → List EngineEvent
  | .none => []
  | event => [event]

/-- The engine. -/
structure StreamEngine where
  /-- The framer. -/
  reader : LineReader UInt8

/-- What the engine is given: a byte, or a soft reset. -/
inductive EngineInput
  | byte (byte : UInt8)
  | softReset
  deriving DecidableEq, Repr

namespace StreamEngine

/-- An engine that holds nothing. -/
def new : StreamEngine := ⟨.new⟩

/-- One byte. -/
def ingest (e : StreamEngine) (byte : UInt8) : StreamEngine × EngineEvent :=
  match e.reader.feed id byte with
  | (reader, .pending) => (⟨reader⟩, .none)
  | (reader, .overflow) => (⟨reader⟩, .reject errorLineOverflow)
  | (reader, .line line) => (⟨reader⟩, .acceptLine line)

/-- Drop the line so far. -/
def softReset (e : StreamEngine) : StreamEngine := ⟨e.reader.reset⟩

/-- A session: the engine behind it, and the events in their order. -/
def run (e : StreamEngine) : List EngineInput → StreamEngine × List EngineEvent
  | [] => (e, [])
  | .byte byte :: rest =>
    let fed := e.ingest byte
    let tail := run fed.1 rest
    (tail.1, fed.2.toList ++ tail.2)
  | .softReset :: rest => run e.softReset rest

end StreamEngine

/-- The streams of a session, which the resets are between. -/
def streams : List EngineInput → List (List UInt8)
  | [] => [[]]
  | .byte byte :: rest =>
    match streams rest with
    | [] => [[byte]]
    | stream :: later => (byte :: stream) :: later
  | .softReset :: rest => [] :: streams rest

/-- The answer to a line. -/
def answer (line : List UInt8) : EngineEvent :=
  if line.length ≤ maxLineLen then .acceptLine line else .reject errorLineOverflow

/-- The answers to the lines of a stream. -/
def lineAnswers (stream : List UInt8) : List EngineEvent :=
  (splitLines id stream).lines.map answer

/-- The answer to a line that is broken off. -/
def brokenOffAnswers (stream : List UInt8) : List EngineEvent :=
  if (splitLines id stream).rest.length ≤ maxLineLen then [] else [.reject errorLineOverflow]

namespace StreamEngine

/-- What the driver makes of what the framer brings. -/
def ofLine : LineEvent UInt8 → EngineEvent
  | .pending => .none
  | .overflow => .reject errorLineOverflow
  | .line line => .acceptLine line

theorem ingest_eq (e : StreamEngine) (byte : UInt8) :
    e.ingest byte = (⟨(e.reader.feed id byte).1⟩, ofLine (e.reader.feed id byte).2) := by
  unfold ingest
  cases hfeed : e.reader.feed id byte with
  | mk reader event => cases event <;> rfl

theorem toList_ofLine (event : LineEvent UInt8) :
    (ofLine event).toList = event.toList.map ofLine := by
  cases event <;> rfl

theorem ofLine_verdict (line : List UInt8) : ofLine (LineReader.verdict line) = answer line := by
  unfold LineReader.verdict answer
  split <;> rfl

/-- What the framer makes of a stream, as the driver is told of it. -/
theorem map_ofLine_frame (stream : List UInt8) :
    (LineReader.new.frame id stream).2.map ofLine
      = lineAnswers stream ++ brokenOffAnswers stream := by
  have hclear : LineReader.unswallowed id .none stream = stream := by cases stream <;> rfl
  have hsplit : (LineReader.new.frame id stream).2
      = LineReader.eventsBehind [] (splitLines id (LineReader.unswallowed id .none stream)) :=
    LineReader.frame_split LineReader.holds_new stream
  have hbroken (rest : List UInt8) : (LineReader.brokenOff rest).map ofLine
      = if rest.length ≤ maxLineLen then [] else [.reject errorLineOverflow] := by
    unfold LineReader.brokenOff
    split <;> rfl
  rw [hsplit, hclear, LineReader.eventsBehind_nil, List.map_append, List.map_map, hbroken,
    lineAnswers, brokenOffAnswers]
  congr 1
  exact List.map_congr_left fun line _ => ofLine_verdict line

/-- A session splits into a stream and the streams behind the first reset. -/
theorem run_split (e : StreamEngine) (session : List EngineInput) :
    ∃ stream later, streams session = stream :: later
      ∧ (e.run session).2 = (e.reader.frame id stream).2.map ofLine
        ++ later.flatMap fun s => lineAnswers s ++ brokenOffAnswers s := by
  induction session generalizing e with
  | nil => exact ⟨[], [], rfl, rfl⟩
  | cons input rest ih =>
    cases input with
    | byte byte =>
      obtain ⟨stream, later, hstreams, hrun⟩ := ih (e.ingest byte).1
      refine ⟨byte :: stream, later, by rw [streams, hstreams], ?_⟩
      rw [run, hrun, ingest_eq, toList_ofLine, LineReader.frame_cons, List.map_append,
        List.append_assoc]
    | softReset =>
      obtain ⟨stream, later, hstreams, hrun⟩ := ih e.softReset
      refine ⟨[], stream :: later, by rw [streams, hstreams], ?_⟩
      rw [run, hrun, List.flatMap_cons, ← map_ofLine_frame]
      rfl

/-- The answers of a session are those to the lines of its streams, and to the lines that are broken
off. -/
theorem run_new (session : List EngineInput) :
    (new.run session).2
      = (streams session).flatMap fun s => lineAnswers s ++ brokenOffAnswers s := by
  obtain ⟨stream, later, hstreams, hrun⟩ := run_split new session
  rw [hrun, hstreams, List.flatMap_cons, ← map_ofLine_frame]
  rfl

/-- Each line of the split is answered once, and nothing else is. -/
def AnswersEachLine (session : List EngineInput) : Prop :=
  (new.run session).2 = (streams session).flatMap lineAnswers

/-- **A line that has no end is answered too**, once it is too long. -/
theorem not_answersEachLine : ¬ ∀ session, AnswersEachLine session := by
  intro h
  have hlong : ¬AnswersEachLine (List.replicate 257 (.byte 97)) := by
    unfold AnswersEachLine
    decide +kernel
  exact hlong (h _)

/-- **The engine follows the split of a session**, and answers what is broken off where it is too
long. -/
theorem answers_session (session : List EngineInput) :
    (new.run session).2
        = ((streams session).flatMap fun s => lineAnswers s ++ brokenOffAnswers s)
      ∧ (AnswersEachLine session
        ↔ ∀ s ∈ streams session, (splitLines id s).rest.length ≤ maxLineLen) := by
  refine ⟨run_new session, ?_⟩
  rw [AnswersEachLine, run_new]
  constructor
  · intro h s hs
    have hlength := congrArg List.length h
    simp only [List.length_flatMap, List.length_append, List.sum_map_add,
      Nat.add_eq_left, List.sum_eq_zero_iff] at hlength
    have hnone : (brokenOffAnswers s).length = 0 := hlength _ (List.mem_map_of_mem hs)
    by_contra hlong
    rw [brokenOffAnswers, if_neg hlong] at hnone
    exact absurd hnone (Nat.succ_ne_zero 0)
  · intro h
    refine List.flatMap_congr fun s hs => ?_
    rw [brokenOffAnswers, if_pos (h s hs), List.append_nil]

end StreamEngine

end Galdr.Comms
