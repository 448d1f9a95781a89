import Mathlib

/-!
# Plans of questions

A machine asks the questions of a plan in their order, one at a time, and stores a reading of every
answer. It may be given up at any time, and it may be told an answer that it did not ask for. The
log of a run has what was asked and what was told; `Follows` says that this is what a plan asks for.

A machine that moves along its plan (`Along`) has stored, at every time of every run, the readings
of the answers to the questions that are behind it, and the log begins with these questions and
answers in the order of the plan (`Along.run`).
-/

namespace Inquiry

variable {W B Q A N R V : Type}

/-! ## Machines -/

/-- What happens in a run. -/
inductive Event (Q A : Type)
  /-- A question is asked. -/
  | asked (question : Q)
  /-- The question that was asked last is answered. -/
  | answered (answer : A)
  /-- Something that the plan waits for is done. -/
  | noted
  deriving DecidableEq

/-- What is done with a machine. -/
inductive Op (B A N R : Type)
  /-- It is asked to go on. -/
  | begin (which : B)
  /-- It is told an answer. -/
  | answer (answer : A)
  /-- It is told something else. -/
  | note (note : N)
  /-- It is given up. -/
  | abort (reason : R)

/-- A machine that asks questions. -/
structure Machine (W B Q A N R : Type) where
  /-- Go on, with a question if one is due. -/
  begin : W → B → Option Q × W
  /-- Take an answer. -/
  answer : W → A → W
  /-- Take a note, which may be one that the plan waits for. -/
  note : W → N → Bool × W
  /-- Give up. -/
  abort : W → R → W

/-- A question awaits its answer. -/
def pending (log : List (Event Q A)) : Bool :=
  match log.getLast? with
  | some (.asked _) => true
  | _ => false

/-- A question of the log. -/
def Event.isAsked : Event Q A → Bool
  | .asked _ => true
  | _ => false

namespace Machine

variable (M : Machine W B Q A N R)

/-- One step of a machine, with the log. An answer that nobody waits for is not in the log. -/
def step (st : W × List (Event Q A)) : Op B A N R → W × List (Event Q A)
  | .begin which =>
    ((M.begin st.1 which).2, st.2 ++ ((M.begin st.1 which).1.map Event.asked).toList)
  | .answer a => (M.answer st.1 a, if pending st.2 then st.2 ++ [.answered a] else st.2)
  | .note n => ((M.note st.1 n).2, if (M.note st.1 n).1 then st.2 ++ [.noted] else st.2)
  | .abort r => (M.abort st.1 r, st.2)

/-- A run, with its log. -/
def run (w : W) (ops : List (Op B A N R)) : W × List (Event Q A) := ops.foldl M.step (w, [])

/-- What holds at the start, and what every step keeps, holds after a run. -/
theorem run_invariant {P : W × List (Event Q A) → Prop} {w : W} (hstart : P (w, []))
    (hstep : ∀ st op, P st → P (M.step st op)) (ops : List (Op B A N R)) : P (M.run w ops) := by
  unfold run
  generalize (w, ([] : List (Event Q A))) = st at hstart
  induction ops generalizing st with
  | nil => exact hstart
  | cons op ops ih => exact ih (M.step st op) (hstep st op hstart)

/-- Nothing is taken out of the log. -/
theorem prefix_step (st : W × List (Event Q A)) (op : Op B A N R) : st.2 <+: (M.step st op).2 := by
  cases op with
  | begin which => exact List.prefix_append _ _
  | answer a =>
    simp only [step]
    split
    · exact List.prefix_append _ _
    · exact List.prefix_rfl
  | note n =>
    simp only [step]
    split
    · exact List.prefix_append _ _
    · exact List.prefix_rfl
  | abort r => exact List.prefix_rfl

end Machine

/-! ## Plans -/

/-- An item of a plan. -/
inductive Item (Q A V : Type)
  /-- A question, and what is read of its answer. -/
  | ask (question : Q) (read : A → Option V)
  /-- Something that is waited for. -/
  | note

/-- The log has the questions of a plan in their order, each with an answer that a reading was read
of. -/
inductive Follows : List (Item Q A V) → List V → List (Event Q A) → Prop
  | nil : Follows [] [] []
  | ask {items : List (Item Q A V)} {readings : List V} {log : List (Event Q A)}
      {question : Q} {read : A → Option V} {answer : A} {reading : V}
      (before : Follows items readings log) (hread : read answer = some reading) :
      Follows (items ++ [.ask question read]) (readings ++ [reading])
        (log ++ [.asked question, .answered answer])
  | note {items : List (Item Q A V)} {readings : List V} {log : List (Event Q A)}
      (before : Follows items readings log) :
      Follows (items ++ [.note]) readings (log ++ [.noted])

section Follows

variable {items plan : List (Item Q A V)} {readings : List V} {log : List (Event Q A)}

/-- No question is open where a plan is followed to its end. -/
theorem Follows.not_pending (h : Follows items readings log) : pending log = false := by
  cases h with
  | nil => rfl
  | ask before hread =>
    rw [List.append_cons]
    simp [pending]
  | note before => simp [pending]

/-- There are as many readings as questions. -/
theorem Follows.length_readings (h : Follows items readings log) :
    readings.length = log.countP Event.isAsked := by
  induction h with
  | nil => rfl
  | ask before hread ih =>
    rw [List.length_append, List.countP_append, ih]
    rfl
  | note before ih =>
    rw [List.countP_append, ih]
    rfl

theorem take_succ_of_getElem? {n : ℕ} {item : Item Q A V} (h : plan[n]? = some item) :
    plan.take (n + 1) = plan.take n ++ [item] := by
  rw [List.take_add_one, h]
  rfl

end Follows

/-! ## Machines that move along a plan -/

/-- How far a machine is. -/
structure Progress (V : Type) where
  /-- The items of the plan that are behind it. -/
  behind : ℕ
  /-- Its question is open. -/
  asking : Bool
  /-- What it read. -/
  readings : List V
  /-- It was given up. -/
  stopped : Bool

namespace Progress

/-- Before the first item. -/
def start : Progress V := ⟨0, false, [], false⟩

/-- The question of the item that is due is asked. -/
def ask (p : Progress V) : Progress V := { p with asking := true }

/-- A reading is stored. -/
def read (p : Progress V) (v : V) : Progress V :=
  { p with behind := p.behind + 1, asking := false, readings := p.readings ++ [v] }

/-- What was waited for is done. -/
def note (p : Progress V) : Progress V := { p with behind := p.behind + 1 }

/-- It is given up. -/
def stop (p : Progress V) : Progress V := { p with asking := false, stopped := true }

/-- What an answer may do, for a machine that is afterwards where `At` says: it is an answer to the
open question, and read; or no question is open, and nothing happens; or the machine gives up. -/
def Takes (p : Progress V) (plan : List (Item Q A V)) (answer : A) (At : Progress V → Prop) : Prop :=
  (∃ q read v, p.stopped = false ∧ p.asking = true ∧ plan[p.behind]? = some (.ask q read)
      ∧ read answer = some v ∧ At (p.read v))
    ∨ (p.stopped = true ∨ p.asking = false) ∧ At p ∨ At p.stop

/-- An item is due, and nothing is in its way. -/
def Due (p : Progress V) (plan : List (Item Q A V)) (item : Item Q A V) : Prop :=
  p.stopped = false ∧ p.asking = false ∧ plan[p.behind]? = some item

end Progress

/-- A machine moves along a plan: it asks the question that is due, takes an answer to it, and does
nothing else until it is given up. -/
structure Along (M : Machine W B Q A N R) (plan : List (Item Q A V)) (At : W → Progress V → Prop) :
    Prop where
  begin_none : ∀ {w p} which, At w p → (M.begin w which).1 = none → At (M.begin w which).2 p
  begin_some : ∀ {w p} which q, At w p → (M.begin w which).1 = some q →
    (∃ read, p.Due plan (.ask q read)) ∧ At (M.begin w which).2 p.ask
  answer : ∀ {w p} a, At w p → p.Takes plan a (At (M.answer w a))
  note_false : ∀ {w p} n, At w p → (M.note w n).1 = false → At (M.note w n).2 p
  note_true : ∀ {w p} n, At w p → (M.note w n).1 = true →
    p.Due plan .note ∧ At (M.note w n).2 p.note
  abort : ∀ {w p} r, At w p → At (M.abort w r) p.stop

/-- The log has what a machine did so far, and behind that what happened after it was given up. -/
structure Logged (plan : List (Item Q A V)) (p : Progress V) (log : List (Event Q A)) : Prop where
  /-- The questions behind it are in the log. -/
  follows : ∃ before, before <+: log ∧ Follows (plan.take p.behind) p.readings before
  /-- Between two questions there is nothing else in it. -/
  between : p.stopped = false → p.asking = false → Follows (plan.take p.behind) p.readings log
  /-- An open question is the last thing in it. -/
  open_ : p.stopped = false → p.asking = true → ∃ q read before,
    plan[p.behind]? = some (.ask q read) ∧ log = before ++ [.asked q]
      ∧ Follows (plan.take p.behind) p.readings before

section Along

variable {M : Machine W B Q A N R} {plan : List (Item Q A V)} {At : W → Progress V → Prop}
  {p : Progress V} {log : List (Event Q A)}

theorem Logged.start : Logged plan (Progress.start : Progress V) ([] : List (Event Q A)) where
  follows := ⟨[], List.prefix_rfl, .nil⟩
  between _ _ := .nil
  open_ _ h := by cases h

theorem Logged.stop (h : Logged plan p log) {log' : List (Event Q A)} (hearlier : log <+: log') :
    Logged plan p.stop log' where
  follows := by
    obtain ⟨before, hbefore, hfollows⟩ := h.follows
    exact ⟨before, hbefore.trans hearlier, hfollows⟩
  between hstopped := by cases hstopped
  open_ hstopped := by cases hstopped

theorem Logged.of_stopped (h : Logged plan p log) (hstopped : p.stopped = true)
    {log' : List (Event Q A)} (hearlier : log <+: log') : Logged plan p log' where
  follows := by
    obtain ⟨before, hbefore, hfollows⟩ := h.follows
    exact ⟨before, hbefore.trans hearlier, hfollows⟩
  between h := absurd (h.symm.trans hstopped) Bool.false_ne_true
  open_ h := absurd (h.symm.trans hstopped) Bool.false_ne_true

/-- The readings do not outnumber the questions. -/
theorem Logged.length_readings_le (h : Logged plan p log) :
    p.readings.length ≤ log.countP Event.isAsked := by
  obtain ⟨before, hearlier, hfollows⟩ := h.follows
  rw [hfollows.length_readings]
  exact hearlier.sublist.countP_le

/-- One step of a machine along its plan. -/
theorem Along.step (h : Along M plan At) {st : W × List (Event Q A)} (op : Op B A N R)
    (hat : At st.1 p) (hlog : Logged plan p st.2) :
    ∃ p', At (M.step st op).1 p' ∧ Logged plan p' (M.step st op).2
      ∧ (p.stopped = true → p'.stopped = true) := by
  have hearlier := M.prefix_step st op
  cases op with
  | begin which =>
    cases hquestion : (M.begin st.1 which).1 with
    | none =>
      refine ⟨p, h.begin_none which hat hquestion, ?_, fun hstopped => hstopped⟩
      simp only [Machine.step, hquestion, Option.map_none, Option.toList_none, List.append_nil]
      exact hlog
    | some q =>
      obtain ⟨⟨read, hstopped, hasking, hitem⟩, hat'⟩ := h.begin_some which q hat hquestion
      refine ⟨p.ask, hat', ?_, fun hstopped => hstopped⟩
      simp only [Machine.step, hquestion, Option.map_some, Option.toList_some]
      have hfollows := hlog.between hstopped hasking
      exact ⟨⟨st.2, List.prefix_append _ _, hfollows⟩, fun _ hfalse => absurd hfalse.symm
        Bool.false_ne_true, fun _ _ => ⟨q, read, st.2, hitem, rfl, hfollows⟩⟩
  | answer a =>
    rcases h.answer a hat with ⟨q, read, v, hstopped, hasking, hitem, hread, hat'⟩
      | ⟨hidle, hat'⟩ | hat'
    · obtain ⟨q', read', before, hitem', hopen, hfollows⟩ := hlog.open_ hstopped hasking
      rw [hitem, Option.some.injEq, Item.ask.injEq] at hitem'
      obtain ⟨rfl, rfl⟩ := hitem'
      have hpending : pending st.2 = true := by
        rw [hopen]
        simp [pending]
      have hnext := @Follows.ask Q A V _ _ _ q read a v hfollows hread
      rw [← take_succ_of_getElem? hitem] at hnext
      refine ⟨p.read v, hat', ?_, fun h => absurd (hstopped.symm.trans h) Bool.false_ne_true⟩
      simp only [Machine.step, hpending, if_true]
      rw [hopen, List.append_assoc]
      exact ⟨⟨_, List.prefix_rfl, hnext⟩, fun _ _ => hnext, fun _ htrue =>
        absurd htrue Bool.false_ne_true⟩
    · refine ⟨p, hat', ?_, fun hstopped => hstopped⟩
      cases hstopped : p.stopped with
      | true => exact hlog.of_stopped hstopped hearlier
      | false =>
        have hasking : p.asking = false :=
          hidle.resolve_left fun h => absurd (hstopped.symm.trans h) Bool.false_ne_true
        have hpending := (hlog.between hstopped hasking).not_pending
        simp only [Machine.step, hpending, if_neg Bool.false_ne_true]
        exact hlog
    · exact ⟨p.stop, hat', hlog.stop hearlier, fun _ => rfl⟩
  | note n =>
    cases hnote : (M.note st.1 n).1 with
    | false =>
      refine ⟨p, h.note_false n hat hnote, ?_, fun hstopped => hstopped⟩
      simp only [Machine.step, hnote, if_neg Bool.false_ne_true]
      exact hlog
    | true =>
      obtain ⟨⟨hstopped, hasking, hitem⟩, hat'⟩ := h.note_true n hat hnote
      have hnext := (hlog.between hstopped hasking).note
      rw [← take_succ_of_getElem? hitem] at hnext
      refine ⟨p.note, hat', ?_, fun hstopped => hstopped⟩
      simp only [Machine.step, hnote, if_true]
      exact ⟨⟨_, List.prefix_rfl, hnext⟩, fun _ _ => hnext,
        fun _ htrue => absurd (hasking.symm.trans htrue) Bool.false_ne_true⟩
  | abort r => exact ⟨p.stop, h.abort r hat, hlog.stop hearlier, fun _ => rfl⟩

/-- **A machine that moves along a plan** has the readings of what is behind it. -/
theorem Along.run (h : Along M plan At) {w : W} (hstart : At w .start) (ops : List (Op B A N R)) :
    ∃ p, At (M.run w ops).1 p ∧ Logged plan p (M.run w ops).2 := by
  refine M.run_invariant (P := fun st => ∃ p, At st.1 p ∧ Logged plan p st.2)
    ⟨.start, hstart, .start⟩ ?_ ops
  rintro st op ⟨p, hat, hlog⟩
  obtain ⟨p', hat', hlog', -⟩ := h.step op hat hlog
  exact ⟨p', hat', hlog'⟩

end Along

end Inquiry
