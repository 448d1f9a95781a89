import Mathlib

/-!
# Framing lines

The framer turns a stream of bytes into lines. A carriage return, a line feed and
the two in either order end a line; a line longer than the buffer is dropped and
reported once. The framer reads the code of a symbol and nothing else of it, so that
a symbol may carry what the stream says of its bytes.
-/

namespace Galdr.Comms

/-- The longest line. -/
def maxLineLen : ℕ := 256

/-- The terminator just seen, whose other half is swallowed. -/
inductive PendingTerminator
  | none
  | cr
  | lf
  deriving DecidableEq, Repr

/-- The framer. -/
structure LineReader (α : Type) where
  /-- The line so far, or the line just completed. -/
  buf : List α
  /-- The terminator just seen. -/
  pending : PendingTerminator
  /-- The line was too long; its bytes are dropped to the next terminator. -/
  overflowed : Bool
  /-- The last byte completed a line, which the next one drops. -/
  lineDone : Bool
  deriving DecidableEq

/-- What a byte brought. -/
inductive LineEvent (α : Type)
  | pending
  | line (content : List α)
  | overflow
  deriving DecidableEq

/-- What a byte brought, where it brought something. -/
def LineEvent.toList {α : Type} : LineEvent α → List (LineEvent α)
  | .pending => []
  | event => [event]

namespace LineReader

variable {α : Type}

/-- An empty framer. -/
def new : LineReader α := ⟨[], .none, false, false⟩

/-- Drop the line so far. -/
def reset (_ : LineReader α) : LineReader α := new

/-- Drop the line just completed. -/
def rotate (r : LineReader α) : LineReader α :=
  if r.lineDone then { r with buf := [], lineDone := false } else r

/-- The byte is the other half of the terminator just seen. -/
def swallows (pending : PendingTerminator) (byte : UInt8) : Bool :=
  (pending = .cr ∧ byte = 10) ∨ (pending = .lf ∧ byte = 13)

/-- One symbol, of which the framer reads the code. -/
def feed (code : α → UInt8) (r : LineReader α) (a : α) : LineReader α × LineEvent α :=
  if swallows r.pending (code a) then ({ r with pending := .none }, .pending)
  else
    let r := r.rotate
    if code a = 13 ∨ code a = 10 then
      let r := { r with pending := if code a = 13 then .cr else .lf }
      if r.overflowed then ({ r with buf := [], overflowed := false }, .pending)
      else ({ r with lineDone := true }, .line r.buf)
    else
      let r := { r with pending := .none }
      if r.overflowed then (r, .pending)
      else if r.buf.length < maxLineLen then ({ r with buf := r.buf ++ [a] }, .pending)
      else ({ r with buf := [], overflowed := true }, .overflow)

/-- The line so far; a line just completed is none. -/
def partialLine (r : LineReader α) : List α := if r.lineDone then [] else r.buf

/-! ## What a symbol does -/

variable {code : α → UInt8} {r : LineReader α} {a : α}

theorem mem_buf_rotate {b : α} (h : b ∈ r.rotate.buf) : b ∈ r.partialLine := by
  unfold rotate at h
  unfold partialLine
  split at h
  · exact absurd h List.not_mem_nil
  · rw [if_neg ‹_›]
    exact h

theorem mem_buf_of_partialLine {b : α} (h : b ∈ r.partialLine) : b ∈ r.buf := by
  unfold partialLine at h
  split at h
  · exact absurd h List.not_mem_nil
  · exact h

/-- **A line is made of the symbols before it**: what stays in the framer, and the
line it completes, are symbols of the line so far and the symbol itself. -/
theorem mem_feed {b : α} :
    (b ∈ (r.feed code a).1.partialLine → b ∈ r.partialLine ∨ b = a)
      ∧ ∀ content, (r.feed code a).2 = .line content → b ∈ content → b ∈ r.partialLine := by
  unfold feed
  by_cases hswallow : swallows r.pending (code a)
  · rw [if_pos hswallow]
    exact ⟨fun hb => .inl hb, fun content hline => absurd hline (by simp)⟩
  rw [if_neg hswallow]
  by_cases hend : code a = 13 ∨ code a = 10
  · rw [if_pos hend]
    by_cases hover : r.rotate.overflowed = true
    · rw [if_pos (show _ = true from hover)]
      exact ⟨fun hb => absurd (mem_buf_of_partialLine hb) List.not_mem_nil,
        fun content hline => absurd hline (by simp)⟩
    · rw [if_neg (show ¬_ = true from hover)]
      refine ⟨fun hb => absurd hb (by simp [partialLine]), fun content hline hb => ?_⟩
      obtain rfl : r.rotate.buf = content := by simpa using hline
      exact mem_buf_rotate hb
  · rw [if_neg hend]
    by_cases hover : r.rotate.overflowed = true
    · rw [if_pos (show _ = true from hover)]
      exact ⟨fun hb => .inl (mem_buf_rotate (mem_buf_of_partialLine hb)),
        fun content hline => absurd hline (by simp)⟩
    · rw [if_neg (show ¬_ = true from hover)]
      split
      · refine ⟨fun hb => ?_, fun content hline => absurd hline (by simp)⟩
        have hb : b ∈ r.rotate.buf ++ [a] := mem_buf_of_partialLine hb
        exact (List.mem_append.1 hb).imp mem_buf_rotate List.mem_singleton.1
      · exact ⟨fun hb => absurd (mem_buf_of_partialLine hb) List.not_mem_nil,
          fun content hline => absurd hline (by simp)⟩

/-! ## What a stream does -/

/-- Feed a stream: the framer behind it, and what it brought. -/
def frame (code : α → UInt8) (r : LineReader α) : List α → LineReader α × List (LineEvent α)
  | [] => (r, [])
  | a :: rest =>
    let fed := r.feed code a
    let tail := frame code fed.1 rest
    (tail.1, fed.2.toList ++ tail.2)

@[simp] theorem frame_nil (code : α → UInt8) (r : LineReader α) : frame code r [] = (r, []) := rfl

theorem frame_cons (code : α → UInt8) (r : LineReader α) (a : α) (rest : List α) :
    frame code r (a :: rest)
      = ((frame code (r.feed code a).1 rest).1,
        (r.feed code a).2.toList ++ (frame code (r.feed code a).1 rest).2) := rfl

theorem frame_append (code : α → UInt8) (r : LineReader α) (as bs : List α) :
    frame code r (as ++ bs)
      = ((frame code (frame code r as).1 bs).1,
        (frame code r as).2 ++ (frame code (frame code r as).1 bs).2) := by
  induction as generalizing r with
  | nil => rfl
  | cons a as ih => rw [List.cons_append, frame_cons, ih, frame_cons, List.append_assoc]

/-- A symbol that ends a line. -/
def IsEnd (code : α → UInt8) (a : α) : Prop := code a = 13 ∨ code a = 10

instance (code : α → UInt8) (a : α) : Decidable (IsEnd code a) :=
  inferInstanceAs (Decidable (_ ∨ _))

theorem swallows_eq_false (pending : PendingTerminator) (h : ¬IsEnd code a) :
    swallows pending (code a) = false := by
  rw [swallows, decide_eq_false_iff_not]
  rintro (⟨-, hcode⟩ | ⟨-, hcode⟩)
  · exact h (.inr hcode)
  · exact h (.inl hcode)

theorem buf_rotate (r : LineReader α) : r.rotate.buf = r.partialLine := by
  unfold rotate partialLine
  split <;> rfl

@[simp] theorem overflowed_rotate (r : LineReader α) : r.rotate.overflowed = r.overflowed := by
  unfold rotate
  split <;> rfl

theorem lineDone_rotate (r : LineReader α) : r.rotate.lineDone = false := by
  unfold rotate
  split
  · rfl
  · exact Bool.eq_false_of_not_eq_true ‹_›

/-- A symbol inside a line that has room joins it. -/
theorem feed_inside (hend : ¬IsEnd code a) (hover : r.overflowed = false)
    (hroom : r.partialLine.length < maxLineLen) :
    (r.feed code a).2 = .pending ∧ (r.feed code a).1.partialLine = r.partialLine ++ [a]
      ∧ (r.feed code a).1.overflowed = false ∧ (r.feed code a).1.pending = .none := by
  unfold feed
  rw [if_neg (by simp [swallows_eq_false r.pending hend])]
  dsimp only
  rw [if_neg (show ¬(code a = 13 ∨ code a = 10) from hend)]
  rw [overflowed_rotate, hover, if_neg Bool.false_ne_true, buf_rotate, if_pos hroom]
  refine ⟨rfl, ?_, rfl, rfl⟩
  unfold partialLine
  rw [lineDone_rotate, if_neg Bool.false_ne_true]

/-- A symbol inside a line that has none is dropped with it. -/
theorem feed_full (hend : ¬IsEnd code a) (hover : r.overflowed = false)
    (hroom : ¬r.partialLine.length < maxLineLen) :
    (r.feed code a).2 = .overflow ∧ (r.feed code a).1.overflowed = true
      ∧ (r.feed code a).1.pending = .none := by
  unfold feed
  rw [if_neg (by simp [swallows_eq_false r.pending hend])]
  dsimp only
  rw [if_neg (show ¬(code a = 13 ∨ code a = 10) from hend)]
  rw [overflowed_rotate, hover, if_neg Bool.false_ne_true, buf_rotate, if_neg hroom]
  exact ⟨rfl, rfl, rfl⟩

/-- A symbol inside a line that was dropped is. -/
theorem feed_dropped (hend : ¬IsEnd code a) (hover : r.overflowed = true) :
    (r.feed code a).2 = .pending ∧ (r.feed code a).1.overflowed = true
      ∧ (r.feed code a).1.pending = .none := by
  unfold feed
  rw [if_neg (by simp [swallows_eq_false r.pending hend])]
  dsimp only
  rw [if_neg (show ¬(code a = 13 ∨ code a = 10) from hend)]
  rw [overflowed_rotate, hover, if_pos rfl]
  exact ⟨rfl, rfl, rfl⟩

/-- An end that is not the other half of one completes the line. -/
theorem feed_end (hend : IsEnd code a) (hswallow : swallows r.pending (code a) = false)
    (hover : r.overflowed = false) :
    (r.feed code a).2 = .line r.partialLine ∧ (r.feed code a).1.partialLine = []
      ∧ (r.feed code a).1.overflowed = false
      ∧ (r.feed code a).1.pending = if code a = 13 then .cr else .lf := by
  unfold feed
  rw [if_neg (by simp [hswallow])]
  rw [if_pos (show code a = 13 ∨ code a = 10 from hend)]
  dsimp only
  rw [overflowed_rotate, hover, if_neg Bool.false_ne_true, buf_rotate]
  exact ⟨rfl, rfl, rfl, rfl⟩

/-- The end of a line that was dropped. -/
theorem feed_end_dropped (hend : IsEnd code a) (hswallow : swallows r.pending (code a) = false)
    (hover : r.overflowed = true) :
    (r.feed code a).2 = .pending ∧ (r.feed code a).1.overflowed = false := by
  unfold feed
  rw [if_neg (by simp [hswallow])]
  rw [if_pos (show code a = 13 ∨ code a = 10 from hend)]
  dsimp only
  rw [overflowed_rotate, hover, if_pos rfl]
  exact ⟨rfl, rfl⟩

/-- The other half of an end brings nothing. -/
theorem feed_swallowed (hswallow : swallows r.pending (code a) = true) :
    r.feed code a = ({ r with pending := .none }, .pending) := by
  unfold feed
  rw [if_pos hswallow]

/-! ## One line -/

/-- The framer is between two lines, and waits for no line feed. -/
structure Between (r : LineReader α) : Prop where
  /-- There is no line so far. -/
  empty : r.partialLine = []
  /-- No line is dropped. -/
  kept : r.overflowed = false
  /-- A line feed ends a line. -/
  ready : r.pending ≠ .cr

/-- What is left of a line behind the other half of the end before it. -/
def unswallowed (code : α → UInt8) (pending : PendingTerminator) : List α → List α
  | [] => []
  | a :: rest => if swallows pending (code a) then rest else a :: rest

/-- Symbols inside a line that has room for them join it. -/
theorem frame_inside {as : List α} (hend : ∀ a ∈ as, ¬IsEnd code a)
    (hover : r.overflowed = false) (hroom : r.partialLine.length + as.length ≤ maxLineLen) :
    (frame code r as).2 = [] ∧ (frame code r as).1.partialLine = r.partialLine ++ as
      ∧ (frame code r as).1.overflowed = false := by
  induction as generalizing r with
  | nil => exact ⟨rfl, (List.append_nil _).symm, hover⟩
  | cons a as ih =>
    rw [List.length_cons] at hroom
    obtain ⟨hevent, hheld, hover', -⟩ := feed_inside (hend a List.mem_cons_self) hover
      (by omega)
    have hrest := ih (r := (r.feed code a).1) (fun b hb => hend b (List.mem_cons_of_mem a hb))
      hover' (by rw [hheld, List.length_append, List.length_singleton]; omega)
    rw [frame_cons, hevent]
    refine ⟨hrest.1, ?_, hrest.2.2⟩
    rw [hrest.2.1, hheld, List.append_assoc]
    rfl

/-- Symbols inside a line that was dropped are. -/
theorem frame_dropped {as : List α} (hend : ∀ a ∈ as, ¬IsEnd code a)
    (hover : r.overflowed = true) :
    (frame code r as).2 = [] ∧ (frame code r as).1.overflowed = true := by
  induction as generalizing r with
  | nil => exact ⟨rfl, hover⟩
  | cons a as ih =>
    obtain ⟨hevent, hover', -⟩ := feed_dropped (hend a List.mem_cons_self) hover
    rw [frame_cons, hevent]
    exact ih (fun b hb => hend b (List.mem_cons_of_mem a hb)) hover'

/-- Behind symbols inside a line, an end is not the other half of one. -/
theorem pending_frame {as : List α} (hend : ∀ a ∈ as, ¬IsEnd code a) (hne : as ≠ []) :
    (frame code r as).1.pending = .none := by
  induction as generalizing r with
  | nil => exact absurd rfl hne
  | cons a as ih =>
    rw [frame_cons]
    by_cases has : as = []
    · subst has
      have hinside := hend a List.mem_cons_self
      cases hover : r.overflowed with
      | true => exact (feed_dropped hinside hover).2.2
      | false =>
        by_cases hroom : r.partialLine.length < maxLineLen
        · exact (feed_inside hinside hover hroom).2.2.2
        · exact (feed_full hinside hover hroom).2.2
    · exact ih (fun b hb => hend b (List.mem_cons_of_mem a hb)) has

/-- A stream that brings nothing drops no line. -/
theorem kept_of_frame_nil {as : List α} (hover : r.overflowed = false)
    (h : (frame code r as).2 = []) : (frame code r as).1.overflowed = false := by
  induction as generalizing r with
  | nil => exact hover
  | cons a as ih =>
    rw [frame_cons] at h ⊢
    obtain ⟨hfirst, hrest⟩ := List.append_eq_nil_iff.1 h
    refine ih ?_ hrest
    by_cases hend : IsEnd code a
    · cases hswallow : swallows r.pending (code a) with
      | true => rw [feed_swallowed hswallow]; exact hover
      | false => exact (feed_end hend hswallow hover).2.2.1
    · by_cases hroom : r.partialLine.length < maxLineLen
      · exact (feed_inside hend hover hroom).2.2.1
      · rw [(feed_full hend hover hroom).1] at hfirst
        cases hfirst

/-- The end of a line that is not empty brings something. -/
theorem frame_line_ne_nil {as : List α} {b e : α} (hb : ¬IsEnd code b) (he : IsEnd code e)
    (hover : r.overflowed = false) : (frame code r (as ++ [b, e])).2 ≠ [] := by
  intro hnil
  have hsplit : as ++ [b, e] = (as ++ [b]) ++ [e] := by rw [List.append_assoc]; rfl
  rw [hsplit, frame_append] at hnil
  obtain ⟨hbody, hlast⟩ := List.append_eq_nil_iff.1 hnil
  have hkept := kept_of_frame_nil hover hbody
  have hpending : (frame code r (as ++ [b])).1.pending = .none := by
    rw [frame_append]
    exact pending_frame (fun c hc => List.mem_singleton.1 hc ▸ hb) (List.cons_ne_nil b [])
  rw [frame_cons, (feed_end he (by rw [hpending]; rfl) hkept).1] at hlast
  cases hlast

/-- A line that has room, behind the framer of the line before it: one line, and the framer
is between two lines again. -/
theorem frame_line {body : List α} {e : α} (he : code e = 10) (hr : r.Between)
    (hend : ∀ a ∈ body, ¬IsEnd code a) (hlen : body.length ≤ maxLineLen) :
    (frame code r (body ++ [e])).2 = [.line body]
      ∧ (frame code r (body ++ [e])).1.Between
      ∧ (frame code r (body ++ [e])).1.pending = .lf := by
  obtain ⟨hevents, hheld, hkept⟩ := frame_inside hend hr.kept
    (by rw [hr.empty]; exact (Nat.zero_add _).symm ▸ hlen)
  have hswallow : swallows (frame code r body).1.pending (code e) = false := by
    by_cases hbody : body = []
    · rw [hbody, he]
      cases hpending : r.pending with
      | cr => exact absurd hpending hr.ready
      | none | lf => simp [hpending, swallows]
    · rw [pending_frame hend hbody]
      rfl
  obtain ⟨hline, hheld', hkept', hpending'⟩ := feed_end (.inr he) hswallow hkept
  rw [he, if_neg (by decide)] at hpending'
  rw [frame_append, hevents, frame_cons, hline, hheld, hr.empty]
  refine ⟨rfl, ⟨hheld', hkept', ?_⟩, hpending'⟩
  show (feed code _ e).1.pending ≠ .cr
  rw [hpending']
  decide

/-- A line that has no room is dropped. -/
theorem frame_line_full {body : List α} {e : α} (he : IsEnd code e) (hr : r.Between)
    (hend : ∀ a ∈ body, ¬IsEnd code a) (hlen : maxLineLen < body.length) :
    (frame code r (body ++ [e])).2 = [.overflow] := by
  -- the symbol that finds the line full, and what is before and behind it
  have hsplit : body = body.take maxLineLen ++ body[maxLineLen] :: body.drop (maxLineLen + 1) := by
    rw [List.getElem_cons_drop, List.take_append_drop]
  have hbefore : ∀ a ∈ body.take maxLineLen, ¬IsEnd code a :=
    fun a ha => hend a (List.mem_of_mem_take ha)
  have hbehind : ∀ a ∈ body.drop (maxLineLen + 1), ¬IsEnd code a :=
    fun a ha => hend a (List.mem_of_mem_drop ha)
  have htake : (body.take maxLineLen).length = maxLineLen :=
    List.length_take_of_le hlen.le
  obtain ⟨hevents, hheld, hkept⟩ := frame_inside (r := r) hbefore hr.kept
    (by rw [hr.empty, htake]; exact (Nat.zero_add _).le)
  obtain ⟨hfull, hover, hpending⟩ := feed_full (r := (frame code r (body.take maxLineLen)).1)
    (hend _ (List.getElem_mem hlen)) hkept
    (by rw [hheld, hr.empty, List.nil_append, htake]; exact lt_irrefl _)
  obtain ⟨hevents', hover'⟩ := frame_dropped hbehind hover
  have hswallow : swallows (frame code (feed code (frame code r (body.take maxLineLen)).1
      body[maxLineLen]).1 (body.drop (maxLineLen + 1))).1.pending (code e) = false := by
    by_cases hdrop : body.drop (maxLineLen + 1) = []
    · rw [hdrop, frame_nil, hpending]
      rfl
    · rw [pending_frame hbehind hdrop]
      rfl
  have hbody : (frame code r body).2 = [.overflow] ∧ (frame code r body).1
      = (frame code (feed code (frame code r (body.take maxLineLen)).1 body[maxLineLen]).1
        (body.drop (maxLineLen + 1))).1 := by
    have happend := frame_append code r (body.take maxLineLen)
      (body[maxLineLen] :: body.drop (maxLineLen + 1))
    rw [← hsplit, hevents, frame_cons, hfull, hevents'] at happend
    exact ⟨congrArg (·.2) happend, congrArg (·.1) happend⟩
  rw [frame_append, hbody.1, hbody.2, frame_cons, (feed_end_dropped he hswallow hover').1]
  rfl

/-- **A line is framed as one** when it has no end in it and is not too long. -/
theorem frame_line_iff {body : List α} {e : α} (he : code e = 10) (hr : r.Between)
    (hfirst : ∀ a ∈ body.head?, swallows r.pending (code a) = false)
    (hlast : ∀ a ∈ body.getLast?, ¬IsEnd code a) :
    (∃ content, (frame code r (body ++ [e])).2 = [.line content])
      ↔ (∀ a ∈ body, ¬IsEnd code a) ∧ body.length ≤ maxLineLen := by
  constructor
  · rintro ⟨content, hevents⟩
    have hinside : ∀ a ∈ body, ¬IsEnd code a := by
      by_contra hex
      -- up to the first end in it, the line brings something, and so does what is behind
      have hdrop : body.dropWhile (fun a => ¬IsEnd code a) ≠ [] := by
        intro hnil
        exact hex fun a ha => by simpa using List.dropWhile_eq_nil_iff.1 hnil a ha
      obtain ⟨t, y, hty⟩ := List.exists_cons_of_ne_nil hdrop
      have ht : IsEnd code t := by
        have h := List.head_dropWhile_not (fun a => decide ¬IsEnd code a) hdrop
        have hhead : (body.dropWhile fun a => decide ¬IsEnd code a).head hdrop = t := by
          simp only [hty, List.head_cons]
        rw [hhead] at h
        simpa using h
      have hx : ∀ a ∈ body.takeWhile (fun a => ¬IsEnd code a), ¬IsEnd code a :=
        fun a ha => by simpa using List.mem_takeWhile_imp ha
      have hbody : body = body.takeWhile (fun a => ¬IsEnd code a) ++ t :: y := by
        rw [← hty, List.takeWhile_append_dropWhile]
      generalize body.takeWhile (fun a => ¬IsEnd code a) = x at hx hbody
      subst hbody
      obtain rfl | ⟨y, b, rfl⟩ := y.eq_nil_or_concat'
      · exact hlast t (by simp) ht
      have hb : ¬IsEnd code b := hlast b (by
        rw [← List.cons_append, ← List.append_assoc]
        exact List.getLast?_concat)
      have hswallow : swallows (frame code r x).1.pending (code t) = false := by
        by_cases hxnil : x = []
        · subst hxnil
          exact hfirst t rfl
        · rw [pending_frame hx hxnil]
          rfl
      have hhead : (frame code r (x ++ [t])).2 ≠ [] := by
        intro hnil
        rw [frame_append] at hnil
        obtain ⟨hxevents, htevents⟩ := List.append_eq_nil_iff.1 hnil
        rw [frame_cons, (feed_end ht hswallow (kept_of_frame_nil hr.kept hxevents)).1] at htevents
        cases htevents
      have hkept : (frame code r (x ++ [t])).1.overflowed = false := by
        rw [frame_append, frame_cons]
        cases hover : (frame code r x).1.overflowed with
        | true => exact (feed_end_dropped ht hswallow hover).2
        | false => exact (feed_end ht hswallow hover).2.2.1
      have htail : (frame code (frame code r (x ++ [t])).1 (y ++ [b, e])).2 ≠ [] :=
        frame_line_ne_nil hb (.inr he) hkept
      have hsplit : x ++ t :: (y ++ [b]) ++ [e] = (x ++ [t]) ++ (y ++ [b, e]) := by simp
      rw [hsplit, frame_append] at hevents
      have hlength := congrArg List.length hevents
      rw [List.length_append, List.length_singleton] at hlength
      have := List.length_pos_of_ne_nil hhead
      have := List.length_pos_of_ne_nil htail
      omega
    refine ⟨hinside, ?_⟩
    by_contra hlen
    rw [frame_line_full (.inr he) hr hinside (not_le.1 hlen)] at hevents
    cases hevents
  · rintro ⟨hinside, hlen⟩
    exact ⟨body, (frame_line he hr hinside hlen).1⟩

/-- The other half of the end before a line changes nothing in how it is framed. -/
theorem frame_unswallowed (hr : r.Between) (body : List α) (e : α) :
    ∃ r' : LineReader α, r'.Between
      ∧ (∀ a ∈ (unswallowed code r.pending body).head?, swallows r'.pending (code a) = false)
      ∧ ((unswallowed code r.pending body).getLast? = body.getLast?
        ∨ unswallowed code r.pending body = [])
      ∧ (frame code r (body ++ [e])).2
        = (frame code r' (unswallowed code r.pending body ++ [e])).2
      ∧ (frame code r (body ++ [e])).1
        = (frame code r' (unswallowed code r.pending body ++ [e])).1 := by
  cases body with
  | nil => exact ⟨r, hr, fun b hb => absurd hb (Option.not_mem_none b), .inr rfl, rfl, rfl⟩
  | cons a rest =>
    cases hswallow : swallows r.pending (code a) with
    | true =>
      rw [show unswallowed code r.pending (a :: rest) = rest from if_pos hswallow,
        List.cons_append, frame_cons, feed_swallowed hswallow]
      refine ⟨{ r with pending := .none }, ⟨hr.empty, hr.kept, by simp⟩, fun b _ => rfl, ?_, rfl, rfl⟩
      cases rest with
      | nil => exact .inr rfl
      | cons b rest => exact .inl List.getLast?_cons_cons.symm
    | false =>
      rw [show unswallowed code r.pending (a :: rest) = a :: rest from if_neg (by simp [hswallow])]
      refine ⟨r, hr, fun b hb => ?_, .inl rfl, rfl, rfl⟩
      obtain rfl : a = b := by simpa using hb
      exact hswallow

/-- A symbol is read for its code only. -/
theorem unswallowed_map {β : Type} (code : β → UInt8) (f : α → β) (pending : PendingTerminator)
    (as : List α) :
    unswallowed code pending (as.map f) = (unswallowed (code ∘ f) pending as).map f := by
  cases as with
  | nil => rfl
  | cons a rest =>
    unfold unswallowed
    rw [List.map_cons]
    dsimp only
    rw [Function.comp_apply]
    split <;> rfl

end LineReader

end Galdr.Comms
