import Mathlib

/-!
# Lines of a stream at the host

The host cuts what it receives into lines: a carriage return, a line feed and the two in either
order end a line. What it makes of a stretch of the stream does not depend on what came before, but
for the line that was begun: its bytes come in front of the first line of the stretch
(`lines_push`). So a stream made of stretches has the lines of its stretches just when no stretch
that leaves a line begun comes before one that ends a line (`lines_flatten_iff`). How the stream is
cut into the chunks of the reads is of no account: what is read is the split of the whole stream
(`pushAll_exact`).
-/

namespace Galdr.Host

/-- What the host remembers between two reads. -/
structure LineReassembler where
  /-- The bytes of the line that was begun. -/
  buffer : List UInt8
  /-- The terminator that was just seen. -/
  pendingPair : Option UInt8
  deriving DecidableEq

namespace LineReassembler

/-- Before the first byte. -/
def new : LineReassembler := ⟨[], none⟩

/-- A byte is the other half of the terminator just seen. -/
def pairs (prev : Option UInt8) (byte : UInt8) : Bool :=
  (prev == some 13 && byte == 10) || (prev == some 10 && byte == 13)

/-- A byte, and the line it ends. -/
def feed (r : LineReassembler) (byte : UInt8) : LineReassembler × List (List UInt8) :=
  if pairs r.pendingPair byte then ({ r with pendingPair := none }, [])
  else if byte = 13 ∨ byte = 10 then (⟨[], some byte⟩, [r.buffer])
  else (⟨r.buffer ++ [byte], none⟩, [])

/-- A chunk, and the lines it ends. -/
def push (r : LineReassembler) : List UInt8 → LineReassembler × List (List UInt8)
  | [] => (r, [])
  | byte :: rest => (((r.feed byte).1.push rest).1, (r.feed byte).2 ++ ((r.feed byte).1.push rest).2)

theorem push_append (r : LineReassembler) (a b : List UInt8) :
    r.push (a ++ b) = (((r.push a).1.push b).1, (r.push a).2 ++ ((r.push a).1.push b).2) := by
  induction a generalizing r with
  | nil => rfl
  | cons byte rest ih =>
    rw [List.cons_append, push, ih]
    simp only [push, List.append_assoc]

/-- A byte that is no terminator. -/
theorem feed_plain {r : LineReassembler} {byte : UInt8} (h : byte ≠ 13 ∧ byte ≠ 10) :
    r.feed byte = (⟨r.buffer ++ [byte], none⟩, []) := by
  have hpairs : pairs r.pendingPair byte = false := by
    unfold pairs
    rw [beq_eq_false_iff_ne.2 h.1, beq_eq_false_iff_ne.2 h.2, Bool.and_false, Bool.and_false,
      Bool.or_false]
  unfold feed
  rw [hpairs, if_neg Bool.false_ne_true, if_neg (not_or.2 h)]

theorem push_plain {r : LineReassembler} {bytes : List UInt8}
    (h : ∀ byte ∈ bytes, byte ≠ 13 ∧ byte ≠ 10) :
    (r.push bytes).2 = [] ∧ (r.push bytes).1.buffer = r.buffer ++ bytes
      ∧ (r.pendingPair = none ∨ bytes ≠ [] → (r.push bytes).1.pendingPair = none) := by
  induction bytes generalizing r with
  | nil =>
    refine ⟨rfl, (List.append_nil _).symm, ?_⟩
    rintro (hnone | hne)
    · exact hnone
    · exact absurd rfl hne
  | cons byte rest ih =>
    obtain ⟨hlines, hbuffer, hpending⟩ :=
      ih (r := (r.feed byte).1) fun b hb => h b (List.mem_cons_of_mem _ hb)
    have hfeed := feed_plain (r := r) (h byte List.mem_cons_self)
    refine ⟨?_, ?_, ?_⟩
    · rw [push, hlines, hfeed]
      rfl
    · rw [push, hbuffer, hfeed, List.append_assoc]
      rfl
    · intro _
      rw [push]
      refine hpending (.inl ?_)
      rw [hfeed]

/-! ## A line that was begun -/

/-- The bytes of a line that was begun come in front of the next line. -/
def inFront (begun : List UInt8) : List (List UInt8) → List (List UInt8)
  | [] => []
  | line :: lines => (begun ++ line) :: lines

/-- What was begun only comes in front. -/
theorem push_inFront (begun : List UInt8) (r : LineReassembler) (bytes : List UInt8) :
    (push ⟨begun ++ r.buffer, r.pendingPair⟩ bytes).2 = inFront begun (r.push bytes).2
      ∧ (push ⟨begun ++ r.buffer, r.pendingPair⟩ bytes).1
        = ⟨if (r.push bytes).2 = [] then begun ++ (r.push bytes).1.buffer
            else (r.push bytes).1.buffer, (r.push bytes).1.pendingPair⟩ := by
  induction bytes generalizing r with
  | nil => exact ⟨rfl, rfl⟩
  | cons byte rest ih =>
    by_cases hpairs : pairs r.pendingPair byte
    · have hfeed : r.feed byte = ({ r with pendingPair := none }, []) := if_pos hpairs
      have hfeed' : feed ⟨begun ++ r.buffer, r.pendingPair⟩ byte
          = (⟨begun ++ r.buffer, none⟩, []) := if_pos hpairs
      rw [push, push, hfeed, hfeed']
      exact ih { r with pendingPair := none }
    · by_cases hend : byte = 13 ∨ byte = 10
      · have hfeed : r.feed byte = (⟨[], some byte⟩, [r.buffer]) := by
          unfold feed
          rw [if_neg hpairs, if_pos hend]
        have hfeed' : feed ⟨begun ++ r.buffer, r.pendingPair⟩ byte
            = (⟨[], some byte⟩, [begun ++ r.buffer]) := by
          unfold feed
          rw [if_neg hpairs, if_pos hend]
        rw [push, push, hfeed, hfeed']
        refine ⟨rfl, ?_⟩
        dsimp only
        rw [List.singleton_append, if_neg (List.cons_ne_nil _ _)]
      · have hfeed : r.feed byte = (⟨r.buffer ++ [byte], none⟩, []) := by
          unfold feed
          rw [if_neg hpairs, if_neg hend]
        have hfeed' : feed ⟨begun ++ r.buffer, r.pendingPair⟩ byte
            = (⟨begun ++ (r.buffer ++ [byte]), none⟩, []) := by
          unfold feed
          rw [if_neg hpairs, if_neg hend, List.append_assoc]
        rw [push, push, hfeed, hfeed']
        exact ih ⟨r.buffer ++ [byte], none⟩

/-- After no bare line feed, bytes that do not begin with one make the same lines as at the start,
but for the line that was begun. -/
theorem lines_push {r : LineReassembler} (hpending : r.pendingPair ≠ some 10) {bytes : List UInt8}
    (hhead : bytes.head? ≠ some 10) :
    (r.push bytes).2 = inFront r.buffer (new.push bytes).2
      ∧ (r.push bytes).1.buffer = (if (new.push bytes).2 = [] then
          r.buffer ++ (new.push bytes).1.buffer else (new.push bytes).1.buffer)
      ∧ ((new.push bytes).1.pendingPair ≠ some 10 → (r.push bytes).1.pendingPair ≠ some 10) := by
  cases bytes with
  | nil => exact ⟨rfl, (List.append_nil _).symm, fun _ => hpending⟩
  | cons byte rest =>
    have hnot : byte ≠ 10 := by
      rintro rfl
      exact hhead rfl
    have hpairs : pairs r.pendingPair byte = false := by
      unfold pairs
      rw [beq_eq_false_iff_ne.2 hnot, beq_eq_false_iff_ne.2 hpending, Bool.and_false,
        Bool.false_and, Bool.or_false]
    have hsame : r.push (byte :: rest) = push ⟨r.buffer ++ [], none⟩ (byte :: rest) := by
      have hfeed : r.feed byte = feed ⟨r.buffer ++ [], none⟩ byte := by
        unfold feed
        rw [hpairs, List.append_nil]
        rfl
      rw [push, push, hfeed]
    obtain ⟨hlines, hstate⟩ := push_inFront r.buffer new (byte :: rest)
    rw [hsame]
    refine ⟨hlines, ?_, ?_⟩
    · exact congrArg buffer hstate
    · intro h
      rw [show push ⟨r.buffer ++ [], none⟩ (byte :: rest)
        = push ⟨r.buffer ++ new.buffer, new.pendingPair⟩ (byte :: rest) from rfl, hstate]
      exact h

/-! ## Stretches -/

/-- The lines that a stretch of the stream ends by itself. -/
def linesOf (stretch : List UInt8) : List (List UInt8) := (new.push stretch).2

/-- The line that it leaves begun. -/
def begunBy (stretch : List UInt8) : List UInt8 := (new.push stretch).1.buffer

/-- A stretch does not begin with a line feed or end in a bare one. -/
def Plain (stretch : List UInt8) : Prop :=
  stretch.head? ≠ some 10 ∧ (new.push stretch).1.pendingPair ≠ some 10

theorem lines_flatten_iff_of_begun {stretches : List (List UInt8)} (h : ∀ s ∈ stretches, Plain s)
    {r : LineReassembler} (hpending : r.pendingPair ≠ some 10) :
    (r.push stretches.flatten).2 = stretches.flatMap linesOf
      ↔ (r.buffer = [] ∨ ∀ s ∈ stretches, linesOf s = [])
        ∧ stretches.Pairwise fun a b => begunBy a = [] ∨ linesOf b = [] := by
  induction stretches generalizing r with
  | nil => exact iff_of_true rfl ⟨.inr (List.forall_mem_nil _), List.Pairwise.nil⟩
  | cons stretch rest ih =>
    obtain ⟨hhead, hlast⟩ := h stretch List.mem_cons_self
    obtain ⟨hlines, hbuffer, hkeeps⟩ := lines_push hpending hhead
    have ih := ih (fun s hs => h s (List.mem_cons_of_mem _ hs)) (r := (r.push stretch).1)
      (hkeeps hlast)
    have hleft (p : Prop) : (∀ s ∈ rest, p ∨ linesOf s = []) ↔ p ∨ ∀ s ∈ rest, linesOf s = [] := by
      simp only [forall_or_left]
    rw [List.flatten_cons, push_append, List.flatMap_cons, List.pairwise_cons]
    dsimp only
    rw [hlines]
    change inFront r.buffer (linesOf stretch) ++ _ = _ ↔ _
    rw [hbuffer, show (new.push stretch).2 = linesOf stretch from rfl,
      show (new.push stretch).1.buffer = begunBy stretch from rfl] at ih
    cases hended : linesOf stretch with
    | nil =>
      rw [hended, if_pos rfl, List.append_eq_nil_iff] at ih
      rw [show inFront r.buffer [] = [] from rfl, List.nil_append, List.nil_append, ih,
        List.forall_mem_cons, and_iff_right hended, hleft]
      constructor
      · rintro ⟨h, hpairwise⟩
        refine ⟨h.imp_left And.left, h.imp_left And.right, hpairwise⟩
      · rintro ⟨hr, hs, hpairwise⟩
        refine ⟨?_, hpairwise⟩
        rcases hr with hr | hall
        · exact hs.imp_left fun hs => ⟨hr, hs⟩
        · exact .inr hall
    | cons line lines =>
      rw [hended, if_neg (List.cons_ne_nil _ _)] at ih
      rw [show inFront r.buffer (line :: lines) = (r.buffer ++ line) :: lines from rfl,
        List.cons_append, List.cons_append, List.cons.injEq, List.append_left_eq_self,
        List.append_cancel_left_eq, ih, List.forall_mem_cons, hended, hleft]
      simp only [reduceCtorEq, false_and, or_false]

/-- **A stream has the lines of its stretches just when no line that one leaves begun is ended by
a later one.** -/
theorem lines_flatten_iff {stretches : List (List UInt8)} (h : ∀ s ∈ stretches, Plain s) :
    linesOf stretches.flatten = stretches.flatMap linesOf
      ↔ stretches.Pairwise fun a b => begunBy a = [] ∨ linesOf b = [] := by
  have := lines_flatten_iff_of_begun h (r := new) (fun hnone => nomatch hnone)
  rw [and_iff_right (.inl rfl)] at this
  exact this

/-! ## Chunks -/

/-- Chunks read one after another, and the lines they end. -/
def pushAll (r : LineReassembler) : List (List UInt8) → LineReassembler × List (List UInt8)
  | [] => (r, [])
  | chunk :: chunks =>
    (((r.push chunk).1.pushAll chunks).1, (r.push chunk).2 ++ ((r.push chunk).1.pushAll chunks).2)

/-- How a stream is cut into chunks does not matter. -/
theorem pushAll_eq_push (r : LineReassembler) (chunks : List (List UInt8)) :
    r.pushAll chunks = r.push chunks.flatten := by
  induction chunks generalizing r with
  | nil => rfl
  | cons chunk chunks ih => rw [List.flatten_cons, push_append, pushAll, ih]

/-- The lines of a stream, of which `line` was begun: the two terminators in either order end a line
together, and each ends one alone. -/
def split (line : List UInt8) : List UInt8 → List (List UInt8)
  | [] => []
  | 13 :: 10 :: rest => line :: split [] rest
  | 10 :: 13 :: rest => line :: split [] rest
  | 13 :: rest => line :: split [] rest
  | 10 :: rest => line :: split [] rest
  | byte :: rest => split (line ++ [byte]) rest

/-- A terminator that was just seen is forgotten at a byte that does not pair with it. -/
theorem push_forget (buffer : List UInt8) (prev : UInt8) {bytes : List UInt8}
    (h : ∀ byte rest, bytes = byte :: rest → pairs (some prev) byte = false) :
    (push ⟨buffer, some prev⟩ bytes).2 = (push ⟨buffer, none⟩ bytes).2 := by
  cases bytes with
  | nil => rfl
  | cons byte rest =>
    have hfeed : feed ⟨buffer, some prev⟩ byte = feed ⟨buffer, none⟩ byte := by
      unfold feed
      rw [h byte rest rfl]
      rfl
    rw [push, push, hfeed]

/-- **What is read is the split of the stream.** -/
theorem push_eq_split (line bytes : List UInt8) :
    (push ⟨line, none⟩ bytes).2 = split line bytes := by
  fun_induction split line bytes with
  | case1 => rfl
  | case2 line rest ih => rw [← ih]; rfl
  | case3 line rest ih => rw [← ih]; rfl
  | case4 line rest hne ih =>
    rw [← ih, ← push_forget [] 13]
    · rfl
    · rintro byte rest' rfl
      have hbyte : byte ≠ 10 := fun heq => hne rest' (congrArg (· :: rest') heq)
      simp [pairs, hbyte]
  | case5 line rest hne ih =>
    rw [← ih, ← push_forget [] 10]
    · rfl
    · rintro byte rest' rfl
      have hbyte : byte ≠ 13 := fun heq => hne rest' (congrArg (· :: rest') heq)
      simp [pairs, hbyte]
  | case6 line byte rest _ _ hcr hlf ih =>
    rw [push, feed_plain ⟨hcr, hlf⟩, ih]
    rfl

theorem split_plain (line rest : List UInt8) {byte : UInt8} (hcr : byte ≠ 13) (hlf : byte ≠ 10) :
    split line (byte :: rest) = split (line ++ [byte]) rest :=
  split.eq_6 line byte rest (fun _ h => absurd h hcr) (fun _ h => absurd h hlf) hcr hlf

/-- A line that was begun is ended by the two terminators together, and only there. -/
theorem split_append_crlf (line : List UInt8) {response rest : List UInt8}
    (h : ∀ byte ∈ response, byte ≠ 13 ∧ byte ≠ 10) :
    split line (response ++ 13 :: 10 :: rest) = (line ++ response) :: split [] rest := by
  induction response generalizing line with
  | nil =>
    rw [List.nil_append, List.append_nil]
    rfl
  | cons byte response ih =>
    obtain ⟨⟨hcr, hlf⟩, hresponse⟩ := List.forall_mem_cons.mp h
    rw [List.cons_append, split_plain _ _ hcr hlf, ih _ hresponse, List.append_assoc]
    rfl

/-- The responses, each ended by the two terminators. -/
def terminated (responses : List (List UInt8)) : List UInt8 :=
  responses.flatMap (· ++ [13, 10])

theorem split_terminated {responses : List (List UInt8)}
    (h : ∀ response ∈ responses, ∀ byte ∈ response, byte ≠ 13 ∧ byte ≠ 10) :
    split [] (terminated responses) = responses := by
  induction responses with
  | nil => rfl
  | cons response rest ih =>
    obtain ⟨hresponse, hrest⟩ := List.forall_mem_cons.mp h
    have happend : terminated (response :: rest) = response ++ 13 :: 10 :: terminated rest := by
      unfold terminated
      rw [List.flatMap_cons, List.append_assoc]
      rfl
    rw [happend, split_append_crlf [] hresponse, ih hrest, List.nil_append]

/-- **What the host reads does not depend on how the stream is cut into chunks**: it is the split of
the whole stream, and of responses that are each ended by the two terminators it is just these. -/
theorem pushAll_exact {Line : Type} (decode : List UInt8 → Line) (chunks : List (List UInt8)) :
    (new.pushAll chunks).2.map decode = (new.push chunks.flatten).2.map decode
      ∧ (new.pushAll chunks).2.map decode = (split [] chunks.flatten).map decode
      ∧ ∀ responses : List (List UInt8),
        (∀ response ∈ responses, ∀ byte ∈ response, byte ≠ 13 ∧ byte ≠ 10) →
        chunks.flatten = terminated responses →
          (new.pushAll chunks).2.map decode = responses.map decode := by
  have hsplit : (new.pushAll chunks).2 = split [] chunks.flatten := by
    rw [pushAll_eq_push]
    exact push_eq_split [] chunks.flatten
  refine ⟨congrArg (fun read => read.2.map decode) (pushAll_eq_push new chunks),
    congrArg (List.map decode) hsplit, fun responses hplain hstream => ?_⟩
  rw [hsplit, hstream, split_terminated hplain]

end LineReassembler

end Galdr.Host
