import Galdr.SettingsStaging

/-!
# Saves over a link

A save puts its writes and the request of a dump into the queue of the board, and the rows
of the dump come back in the queue of the host. Both queues are first in, first out, and
every order and every answer is recorded with the number of saves that were made when it was
asked for. The host, the board and the operator take turns in any way.

The edits an operator made are recorded beside the store, with the save each was last part
of, and so is what the board said of every write. The dialog tells the truth if an edit that
was not saved is staged as it was typed, and an edit whose save was answered is gone if the
board accepted it, and is staged and was reported if not.

What a row of a dump proves of a write is that the setting reads as the row does. The dialog
tells the truth in the runs where this is the verdict of the board
(`Link.tellsTruth_run`): where what is accepted is shown as it was written and what is
refused is not shown anyway, where every saved setting has a row, and where no row that was
asked for before a save comes while its edit is awaited.
-/

namespace Galdr.Staging

open Text

/-! ## A board -/

/-- A board with numbered settings. A dump has a row for each of its numbers, and the row of
a setting does not change by the write of another. -/
structure Board (S : Type) where
  /-- The write of a text to a setting: whether it is accepted, and the state after it. -/
  write : S → ℕ → List Char → Bool × S
  /-- The settings of a dump. -/
  numbers : List ℕ
  /-- The row of a setting. -/
  shown : S → ℕ → List Char
  frame : ∀ (s : S) (n : ℕ) (text : List Char), ∀ m ∈ numbers, n ≠ m →
    shown (write s n text).2 m = shown s m
  trimmed : ∀ s, ∀ n ∈ numbers, trim (shown s n) = shown s n

/-- The rows of a dump. -/
def Board.dump {S : Type} (B : Board S) (s : S) : List (ℕ × List Char) :=
  B.numbers.map fun n => (n, B.shown s n)

/-! ## The link -/

/-- What waits for the board, with the saves made when it was sent. -/
inductive Order
  | write (save number : ℕ) (text : List Char)
  | dump (save : ℕ)
  deriving DecidableEq

/-- What waits for the host, with the saves made when it was asked for: a row of a dump, or
the end of one. -/
inductive Answer
  | row (save number : ℕ) (text : List Char)
  | done (save : ℕ)
  deriving DecidableEq

/-- The saves made when an order was sent. -/
def Order.save : Order → ℕ
  | write save _ _ | dump save => save

/-- The saves made when an answer was asked for. -/
def Answer.save : Answer → ℕ
  | row save _ _ | done save => save

/-- The answer is not the end of the dump of a save. -/
def Answer.goesOn (save : ℕ) (answer : Answer) : Bool := answer ≠ .done save

/-- An edit of the operator, and the save it was last part of. -/
structure Edit where
  /-- The text of the edit. -/
  text : List Char
  /-- The save, if there was one. -/
  save : Option ℕ
  deriving DecidableEq

/-- The store, the board and the link between them, and what is recorded beside them. -/
structure Link (S : Type) where
  /-- The store of the host. -/
  staging : SettingsStaging
  /-- The settings of the board. -/
  board : S
  /-- The orders on their way, the next one first. -/
  toBoard : List Order
  /-- The answers on their way, the next one first. -/
  toHost : List Answer
  /-- The saves so far. -/
  saves : ℕ
  /-- The last save whose dump was folded in to its end. -/
  answered : ℕ
  /-- The last edit of a setting, if it is a change. -/
  edits : ℕ → Option Edit
  /-- What the board said of the write of a setting in a save. -/
  verdict : ℕ → ℕ → Option Bool
  /-- The rejections reported on the console, with their saves. -/
  notes : List (ℕ × ℕ)

/-- What happens next. -/
inductive Event
  /-- The operator edits a setting, which is shown to him as `live`. -/
  | stage (number : ℕ) (value : List Char) (live : Option (List Char))
  /-- The operator saves. -/
  | save
  /-- The operator asks for a dump. -/
  | refresh
  /-- The board carries out an order. -/
  | board
  /-- The host folds an answer in. -/
  | host
  /-- The host reports what was rejected. -/
  | report

namespace Link

variable {S : Type}

/-- A link with nothing staged and nothing on its way. -/
def start (s : S) : Link S where
  staging := {}
  board := s
  toBoard := []
  toHost := []
  saves := 0
  answered := 0
  edits := fun _ => none
  verdict := fun _ _ => none
  notes := []

/-- An edit. -/
def onStage (y : Link S) (number : ℕ) (value : List Char) (live : Option (List Char)) :
    Link S :=
  { y with
    staging := y.staging.stage number value live
    edits := fun n => if number = n then (editOf value live).map (⟨·, none⟩) else y.edits n }

/-- A save: nothing is sent if nothing is staged. -/
def onSave (y : Link S) : Link S :=
  if y.staging.beginSave.1 = [] then { y with staging := y.staging.beginSave.2 }
  else
    { y with
      staging := y.staging.beginSave.2
      toBoard := y.toBoard
        ++ (y.staging.beginSave.1.map fun edit => .write (y.saves + 1) edit.1 edit.2)
        ++ [.dump (y.saves + 1)]
      saves := y.saves + 1
      edits := fun n => if y.staging.staged.contains n
        then (y.edits n).map fun edit => { edit with save := some (y.saves + 1) }
        else y.edits n }

/-- The request of a dump. -/
def onRefresh (y : Link S) : Link S := { y with toBoard := y.toBoard ++ [.dump y.saves] }

/-- The board carries out a write. -/
def onWrite (B : Board S) (y : Link S) (save number : ℕ) (text : List Char)
    (rest : List Order) : Link S :=
  { y with
    board := (B.write y.board number text).2
    toBoard := rest
    verdict := fun k n => if save = k ∧ number = n then some (B.write y.board number text).1
      else y.verdict k n }

/-- The board dumps its settings. -/
def onDump (B : Board S) (y : Link S) (save : ℕ) (rest : List Order) : Link S :=
  { y with
    toBoard := rest
    toHost := y.toHost ++ ((B.dump y.board).map fun row => .row save row.1 row.2)
      ++ [.done save] }

/-- The next order is carried out. -/
def onBoard (B : Board S) (y : Link S) : Link S :=
  match y.toBoard with
  | [] => y
  | .write save number text :: rest => y.onWrite B save number text rest
  | .dump save :: rest => y.onDump B save rest

/-- The host folds a row in. -/
def onRow (y : Link S) (number : ℕ) (text : List Char) (rest : List Answer) : Link S :=
  { y with staging := y.staging.confirm number text, toHost := rest }

/-- A dump was folded in to its end. -/
def onDone (y : Link S) (save : ℕ) (rest : List Answer) : Link S :=
  { y with toHost := rest, answered := max y.answered save }

/-- The next answer is folded in. -/
def onHost (y : Link S) : Link S :=
  match y.toHost with
  | [] => y
  | .row _ number text :: rest => y.onRow number text rest
  | .done save :: rest => y.onDone save rest

/-- The rejected edits are reported. -/
def onReport (y : Link S) : Link S :=
  { y with
    staging := y.staging.takeRejected.2
    notes := y.notes ++ y.staging.takeRejected.1.map (y.saves, ·) }

/-- A turn. -/
def step (B : Board S) (y : Link S) : Event → Link S
  | .stage number value live => y.onStage number value live
  | .save => y.onSave
  | .refresh => y.onRefresh
  | .board => y.onBoard B
  | .host => y.onHost
  | .report => y.onReport

/-- A run. -/
def run (B : Board S) (y : Link S) (events : List Event) : Link S := events.foldl (step B) y

/-! ## What the dialog ought to show -/

/-- What became of the edit of a setting whose save was answered: the board accepted it and
it is gone, or the board refused it and it is staged still and was reported. -/
structure Settled (y : Link S) (n : ℕ) (text : List Char) (save : ℕ) : Prop where
  judged : ∃ accepted, y.verdict save n = some accepted
  cleared : (y.staging.row n).staged = none ↔ y.verdict save n = some true
  kept : (y.staging.row n).staged = some text ↔ y.verdict save n = some false
  reported : ((y.staging.row n).rejected = true ∨ (save, n) ∈ y.notes)
    ↔ y.verdict save n = some false

/-- **The dialog tells the truth**: an edit that is not part of a save is staged, and an edit
whose save was answered is settled by the verdict of the board. -/
structure TellsTruth (y : Link S) : Prop where
  unsaved : ∀ n text, y.edits n = some ⟨text, none⟩ → (y.staging.row n).staged = some text
  saved : ∀ n text save, y.edits n = some ⟨text, some save⟩ → save ≤ y.answered →
    y.Settled n text save

/-- The turn does not save a setting that has no row, does not write an awaited edit that is
accepted and shown otherwise or refused and shown as written, and does not fold in a row that
was asked for before the save of the edit that awaits it. -/
def plain (B : Board S) (y : Link S) : Event → Bool
  | .save => y.staging.beginSave.1.all fun edit => edit.1 ∈ B.numbers
  | .board => match y.toBoard with
    | .write save n text :: _ => decide (save = y.saves → (y.staging.row n).pending ≠ none →
        (B.write y.board n text).1 = decide (B.shown (B.write y.board n text).2 n = text))
    | _ => true
  | .host => match y.toHost with
    | .row save n _ :: _ => decide ((y.staging.row n).pending ≠ none → save = y.saves)
    | _ => true
  | _ => true

/-- Every turn of the run is plain. -/
def plainRun (B : Board S) (y : Link S) : List Event → Bool
  | [] => true
  | event :: rest => y.plain B event && (y.step B event).plainRun B rest

/-! ## The edits -/

/-- Where an edit of a setting is: not in a save, awaited by the last save, or settled. -/
inductive Tracks (saves : ℕ) (verdict : ℕ → Option Bool) (notes : List (ℕ × ℕ)) (n : ℕ) :
    Option Edit → Row → Prop
  | untouched : Tracks saves verdict notes n none .blank
  | staged (text : List Char) :
      Tracks saves verdict notes n (some ⟨text, none⟩) ⟨some text, none, false⟩
  | awaited (text : List Char) (hnote : (saves, n) ∉ notes) :
      Tracks saves verdict notes n (some ⟨text, some saves⟩) ⟨some text, some text, false⟩
  | cleared (text : List Char) (save : ℕ) (hverdict : verdict save = some true)
      (hnote : (save, n) ∉ notes) :
      Tracks saves verdict notes n (some ⟨text, some save⟩) .blank
  | flagged (text : List Char) (hverdict : verdict saves = some false) :
      Tracks saves verdict notes n (some ⟨text, some saves⟩) ⟨some text, none, true⟩
  | noted (text : List Char) (save : ℕ) (hverdict : verdict save = some false)
      (hnote : (save, n) ∈ notes) :
      Tracks saves verdict notes n (some ⟨text, some save⟩) ⟨some text, none, false⟩

namespace Tracks

variable {saves : ℕ} {verdict : ℕ → Option Bool} {notes : List (ℕ × ℕ)} {n : ℕ}
  {edit : Option Edit} {row : Row}

theorem edited (value : List Char) (live : Option (List Char)) :
    Tracks saves verdict notes n ((editOf value live).map (⟨·, none⟩))
      ⟨editOf value live, none, false⟩ := by
  cases editOf value live with
  | none => exact .untouched
  | some text => exact .staged text

/-- A staged edit is part of the next save. -/
theorem save (h : Tracks saves verdict notes n edit row)
    (hnotes : ∀ note ∈ notes, note.1 ≤ saves) :
    Tracks (saves + 1) verdict notes n
      (if row.staged.isSome then edit.map fun e => { e with save := some (saves + 1) } else edit)
      row.save := by
  have hnew : (saves + 1, n) ∉ notes := fun hmem => absurd (hnotes _ hmem) (by simp)
  cases h with
  | untouched => exact .untouched
  | cleared text save hverdict hnote => exact .cleared text save hverdict hnote
  | staged text => exact .awaited text hnew
  | awaited text => exact .awaited text hnew
  | flagged text => exact .awaited text hnew
  | noted text => exact .awaited text hnew

/-- A save does nothing to an edit that is gone. -/
theorem save_of_none (h : Tracks saves verdict notes n edit row) (hnone : row.staged = none) :
    Tracks saves verdict notes n edit row.save := by
  cases h with
  | untouched => exact .untouched
  | cleared text save hverdict hnote => exact .cleared text save hverdict hnote
  | _ => exact absurd hnone (Option.some_ne_none _)

/-- A row of a dump settles the edit it is awaited for. -/
theorem confirm (h : Tracks saves verdict notes n edit row) {live : List Char}
    (hread : ∀ text, row.pending = some text →
      ∃ accepted, verdict saves = some accepted ∧ (accepted = true ↔ text = trim live)) :
    Tracks saves verdict notes n edit (row.confirm live) := by
  cases h with
  | awaited text hnote =>
    obtain ⟨accepted, hverdict, hiff⟩ := hread text rfl
    unfold Row.confirm
    by_cases heq : text = trim live
    · rw [hiff.2 heq] at hverdict
      simpa [heq] using cleared text saves hverdict hnote
    · rw [Bool.eq_false_iff.2 (mt hiff.1 heq)] at hverdict
      simpa [heq] using flagged text hverdict
  | untouched => exact .untouched
  | staged text => exact .staged text
  | cleared text save hverdict hnote => exact .cleared text save hverdict hnote
  | flagged text hverdict => exact .flagged text hverdict
  | noted text save hverdict hnote => exact .noted text save hverdict hnote

/-- A report notes what is flagged. -/
theorem report (h : Tracks saves verdict notes n edit row) {more : List (ℕ × ℕ)}
    (hmore : ∀ save, (save, n) ∈ more ↔ save = saves ∧ row.rejected = true) :
    Tracks saves verdict (notes ++ more) n edit { row with rejected := false } := by
  have hquiet (hrow : row.rejected = false) (save : ℕ) (hnote : (save, n) ∉ notes) :
      (save, n) ∉ notes ++ more := by
    simp [hnote, hmore, hrow]
  cases h with
  | untouched => exact .untouched
  | staged text => exact .staged text
  | awaited text hnote => exact .awaited text (hquiet rfl saves hnote)
  | cleared text save hverdict hnote => exact .cleared text save hverdict (hquiet rfl save hnote)
  | flagged text hverdict =>
    exact .noted text saves hverdict (List.mem_append_right _ ((hmore saves).2 ⟨rfl, rfl⟩))
  | noted text save hverdict hnote =>
    exact .noted text save hverdict (List.mem_append_left _ hnote)

/-- A verdict that is given stays. -/
theorem hear (h : Tracks saves verdict notes n edit row) {verdict' : ℕ → Option Bool}
    (hkeep : ∀ save accepted, verdict save = some accepted → verdict' save = some accepted) :
    Tracks saves verdict' notes n edit row := by
  cases h with
  | untouched => exact .untouched
  | staged text => exact .staged text
  | awaited text hnote => exact .awaited text hnote
  | cleared text save hverdict hnote => exact .cleared text save (hkeep _ _ hverdict) hnote
  | flagged text hverdict => exact .flagged text (hkeep _ _ hverdict)
  | noted text save hverdict hnote => exact .noted text save (hkeep _ _ hverdict) hnote

end Tracks

/-- An edit that is not part of a save is staged, and awaits nothing. -/
def Kept : Option Edit → Row → Prop
  | some ⟨text, none⟩, row => row.staged = some text ∧ row.pending = none
  | _, _ => True

/-- **No turn clears an edit that is not part of a save.** -/
theorem kept_step (B : Board S) {y : Link S}
    (h : ∀ n, Kept (y.edits n) (y.staging.row n)) (event : Event) (n : ℕ) :
    Kept ((y.step B event).edits n) ((y.step B event).staging.row n) := by
  have hn := h n
  cases event with
  | stage number value live =>
    show Kept (if number = n then _ else _) ((y.staging.stage number value live).row n)
    rw [SettingsStaging.row_stage]
    split_ifs
    · cases editOf value live with
      | none => trivial
      | some text => exact ⟨rfl, rfl⟩
    · exact hn
  | save =>
    have hsaved : Kept (if y.staging.staged.contains n
        then (y.edits n).map fun edit => { edit with save := some (y.saves + 1) }
        else y.edits n) (y.staging.beginSave.2.row n) := by
      rw [SettingsStaging.row_beginSave, SettingsStaging.contains_staged]
      rcases hedit : y.edits n with - | ⟨text, save⟩
      · split_ifs <;> trivial
      · cases save with
        | none =>
          rw [hedit] at hn
          rw [if_pos (by rw [hn.1]; rfl)]
          trivial
        | some save => split_ifs <;> trivial
    unfold step onSave
    dsimp only
    split_ifs with hempty
    · have hnone : y.staging.staged.contains n = false := by
        rw [SettingsStaging.contains_staged]
        refine Option.isSome_eq_false_iff.2 (Option.isNone_iff_eq_none.2 ?_)
        refine Option.eq_none_iff_forall_not_mem.2 fun text htext => ?_
        have hmem := (y.staging.mem_beginSave n).2 htext
        rw [hempty] at hmem
        exact absurd hmem List.not_mem_nil
      rwa [hnone] at hsaved
    · exact hsaved
  | refresh => exact hn
  | board =>
    unfold step onBoard
    dsimp only
    split <;> exact hn
  | host =>
    unfold step onHost
    dsimp only
    split
    · exact hn
    · next number text _ _ =>
      show Kept (y.edits n) ((y.staging.confirm number text).row n)
      rw [SettingsStaging.row_confirm]
      split_ifs
      · rcases hedit : y.edits n with - | ⟨text', save⟩
        · trivial
        · cases save with
          | none =>
            rw [hedit] at hn
            unfold Row.confirm
            rw [hn.2]
            exact hn
          | some save => trivial
      · exact hn
    · exact hn
  | report =>
    show Kept (y.edits n) (y.staging.takeRejected.2.row n)
    rw [SettingsStaging.row_takeRejected]
    rcases hedit : y.edits n with - | ⟨text, save⟩
    · trivial
    · cases save with
      | none =>
        rw [hedit] at hn
        exact hn
      | some save => trivial

theorem kept_run (B : Board S) {y : Link S} (h : ∀ n, Kept (y.edits n) (y.staging.row n))
    (events : List Event) (n : ℕ) :
    Kept ((y.run B events).edits n) ((y.run B events).staging.row n) := by
  induction events generalizing y with
  | nil => exact h n
  | cons event rest ih => exact ih (kept_step B h event)

/-- **An edit that is not part of a save is staged, in every run**, and no dump clears it. -/
theorem unsaved_run (B : Board S) (s : S) (events : List Event) (n : ℕ) :
    Kept (((start s).run B events).edits n) (((start s).run B events).staging.row n) :=
  kept_run B (y := start s) (fun _ => trivial) events n

/-! ## The link -/

/-- The order of the orders: a setting is written once in a save, and what is written after
a dump is of a later save. -/
def Before : Order → Order → Prop
  | .write save n _, .write save' n' _ => n = n' → save < save'
  | .dump save, .write save' _ _ => save < save'
  | _, .dump _ => True

/-- An edit awaits a row, and the rows on their way to it show what the board made of its
write. -/
structure Awaits (B : Board S) (y : Link S) (n : ℕ) (text : List Char) : Prop where
  number : n ∈ B.numbers
  unanswered : y.answered < y.saves
  written : .write y.saves n text ∈ y.toBoard
    ∨ (∀ save text', .write save n text' ∉ y.toBoard) ∧ ∃ accepted,
      y.verdict y.saves n = some accepted ∧ (accepted = true ↔ B.shown y.board n = text)
  reply : (.dump y.saves ∈ y.toBoard ∧ .done y.saves ∉ y.toHost)
    ∨ ∃ text', .row y.saves n text' ∈ y.toHost.takeWhile (Answer.goesOn y.saves)
  rows : ∀ text', .row y.saves n text' ∈ y.toHost → ∃ accepted,
    y.verdict y.saves n = some accepted ∧ (accepted = true ↔ text = trim text')

/-- What a run keeps. -/
structure Inv (B : Board S) (y : Link S) : Prop where
  orders_le : ∀ order ∈ y.toBoard, order.save ≤ y.saves
  answers_le : ∀ answer ∈ y.toHost, answer.save ≤ y.saves
  answered_le : y.answered ≤ y.saves
  notes_le : ∀ note ∈ y.notes, note.1 ≤ y.saves
  sorted : y.toBoard.Pairwise Before
  unheard : ∀ save n text, .write save n text ∈ y.toBoard → y.verdict save n = none
  verdict_le : ∀ save n, y.saves < save → y.verdict save n = none
  tracks : ∀ n, Tracks y.saves (y.verdict · n) y.notes n (y.edits n) (y.staging.row n)
  awaits : ∀ n text, (y.staging.row n).pending = some text → Awaits B y n text

variable {B : Board S} {y : Link S}

theorem mem_takeWhile_append {α : Type} {p : α → Bool} {a : α} {l : List α} (more : List α)
    (h : a ∈ l.takeWhile p) : a ∈ (l ++ more).takeWhile p := by
  rw [List.takeWhile_append]
  split
  · exact List.mem_append_left _ (List.takeWhile_subset p h)
  · exact h

/-- **Nothing is staged at first.** -/
theorem inv_start (s : S) : Inv B (start s) where
  orders_le := by simp [start]
  answers_le := by simp [start]
  answered_le := le_rfl
  notes_le := by simp [start]
  sorted := .nil
  unheard := by simp [start]
  verdict_le _ _ _ := rfl
  tracks n := by simpa [start, SettingsStaging.row, Row.blank] using Tracks.untouched
  awaits n text h := by simp [start, SettingsStaging.row] at h

namespace Inv

/-- An edit of one setting leaves the others as they are. -/
theorem onStage (h : Inv B y) (number : ℕ) (value : List Char) (live : Option (List Char)) :
    Inv B (y.onStage number value live) where
  orders_le := h.orders_le
  answers_le := h.answers_le
  answered_le := h.answered_le
  notes_le := h.notes_le
  sorted := h.sorted
  unheard := h.unheard
  verdict_le := h.verdict_le
  tracks n := by
    unfold Link.onStage
    dsimp only
    rw [SettingsStaging.row_stage]
    by_cases hn : number = n
    · simpa only [hn, if_true] using Tracks.edited value live
    · simpa only [hn, if_false] using h.tracks n
  awaits n text hpending := by
    unfold Link.onStage at hpending
    dsimp only at hpending
    rw [SettingsStaging.row_stage] at hpending
    by_cases hn : number = n
    · simp [hn] at hpending
    · rw [if_neg hn] at hpending
      exact { h.awaits n text hpending with }

/-- A dump is asked for. -/
theorem onRefresh (h : Inv B y) : Inv B y.onRefresh where
  orders_le order horder := by
    rcases List.mem_append.1 horder with horder | horder
    · exact h.orders_le order horder
    · rw [List.mem_singleton.1 horder]
      exact le_rfl
  answers_le := h.answers_le
  answered_le := h.answered_le
  notes_le := h.notes_le
  sorted := List.pairwise_append.2 ⟨h.sorted, List.pairwise_singleton .., fun order _ last hlast => by
    rw [List.mem_singleton.1 hlast]
    cases order <;> trivial⟩
  unheard save n text hwrite := h.unheard save n text (by simpa [Link.onRefresh] using hwrite)
  verdict_le := h.verdict_le
  tracks := h.tracks
  awaits n text hpending := by
    have ha := h.awaits n text hpending
    exact { ha with
      written := ha.written.imp (List.mem_append_left _) fun ⟨hno, hread⟩ =>
        ⟨fun save text' hmem => hno save text' (by simpa [Link.onRefresh] using hmem), hread⟩
      reply := ha.reply.imp (fun ⟨hdump, hdone⟩ => ⟨List.mem_append_left _ hdump, hdone⟩) id }

/-- A report moves what is flagged to the console. -/
theorem onReport (h : Inv B y) : Inv B y.onReport where
  orders_le := h.orders_le
  answers_le := h.answers_le
  answered_le := h.answered_le
  notes_le note hnote := by
    rcases List.mem_append.1 hnote with hnote | hnote
    · exact h.notes_le note hnote
    · obtain ⟨n, -, rfl⟩ := List.mem_map.1 hnote
      exact le_rfl
  sorted := h.sorted
  unheard := h.unheard
  verdict_le := h.verdict_le
  tracks n := by
    unfold Link.onReport
    dsimp only
    rw [SettingsStaging.row_takeRejected]
    refine (h.tracks n).report fun save => ?_
    rw [← SettingsStaging.mem_takeRejected]
    simp [eq_comm, and_comm]
  awaits n text hpending := by
    unfold Link.onReport at hpending
    dsimp only at hpending
    rw [SettingsStaging.row_takeRejected] at hpending
    exact { h.awaits n text hpending with }

/-- **A save** awaits the rows of all that is staged, and of nothing else. -/
theorem onSave (h : Inv B y) (hnumbers : ∀ edit ∈ y.staging.beginSave.1, edit.1 ∈ B.numbers) :
    Inv B y.onSave := by
  unfold Link.onSave
  split_ifs with hempty
  · have hnone (n : ℕ) : (y.staging.row n).staged = none := by
      refine Option.eq_none_iff_forall_not_mem.2 fun text htext => ?_
      have hmem := (y.staging.mem_beginSave n).2 htext
      rw [hempty] at hmem
      exact absurd hmem List.not_mem_nil
    refine { h with tracks := fun n => ?_, awaits := fun n text hpending => ?_ }
    · dsimp only
      rw [SettingsStaging.row_beginSave]
      exact (h.tracks n).save_of_none (hnone n)
    · dsimp only at hpending
      rw [SettingsStaging.row_beginSave] at hpending
      exact absurd ((hnone n).symm.trans hpending) (Option.some_ne_none text).symm
  · constructor
    · -- Every order is of a save that was made.
      intro order horder
      rcases List.mem_append.1 horder with horder | horder
      · rcases List.mem_append.1 horder with horder | horder
        · exact (h.orders_le order horder).trans (Nat.le_succ _)
        · obtain ⟨edit, -, rfl⟩ := List.mem_map.1 horder
          exact le_rfl
      · rw [List.mem_singleton.1 horder]
        exact le_rfl
    · exact fun answer hanswer => (h.answers_le answer hanswer).trans (Nat.le_succ _)
    · exact h.answered_le.trans (Nat.le_succ _)
    · exact fun note hnote => (h.notes_le note hnote).trans (Nat.le_succ _)
    · -- The writes are of a new save, each of its own setting, and the dump is the last.
      refine List.pairwise_append.2 ⟨List.pairwise_append.2 ⟨h.sorted, ?_, ?_⟩,
        List.pairwise_singleton .., ?_⟩
      · refine List.pairwise_map.2 (y.staging.pairwise_beginSave.imp fun hne heq => ?_)
        exact absurd heq hne
      · intro order horder last hlast
        obtain ⟨edit, -, rfl⟩ := List.mem_map.1 hlast
        have hle := Nat.lt_succ_of_le (h.orders_le order horder)
        cases order with
        | write save n text => exact fun _ => hle
        | dump save => exact hle
      · intro order _ last hlast
        rw [List.mem_singleton.1 hlast]
        cases order <;> trivial
    · intro save n text hwrite
      rcases List.mem_append.1 hwrite with hwrite | hwrite
      · rcases List.mem_append.1 hwrite with hwrite | hwrite
        · exact h.unheard save n text hwrite
        · obtain ⟨edit, -, heq⟩ := List.mem_map.1 hwrite
          obtain ⟨rfl, -, -⟩ := Order.write.inj heq
          exact h.verdict_le _ _ (Nat.lt_succ_self _)
      · exact absurd (List.mem_singleton.1 hwrite) Order.noConfusion
    · exact fun save n hlt => h.verdict_le save n ((Nat.lt_succ_self _).trans hlt)
    · intro n
      dsimp only
      rw [SettingsStaging.row_beginSave, SettingsStaging.contains_staged]
      exact (h.tracks n).save h.notes_le
    · intro n text hpending
      dsimp only at hpending
      rw [SettingsStaging.row_beginSave] at hpending
      have hmem := (y.staging.mem_beginSave n).2 hpending
      have hnew (answer : Answer) (hanswer : answer ∈ y.toHost) : answer.save ≠ y.saves + 1 :=
        (Nat.lt_succ_of_le (h.answers_le answer hanswer)).ne
      exact
        { number := hnumbers _ hmem
          unanswered := Nat.lt_succ_of_le h.answered_le
          written := .inl (List.mem_append_left _ (List.mem_append_right _
            (List.mem_map_of_mem hmem)))
          reply := .inl ⟨List.mem_append_right _ List.mem_cons_self, fun hdone => hnew _ hdone rfl⟩
          rows := fun text' hrow => absurd rfl (hnew _ hrow) }

/-- **A write** decides the edit that awaits it, and no other. -/
theorem onWrite (h : Inv B y) {save number : ℕ} {text : List Char} {rest : List Order}
    (hqueue : y.toBoard = .write save number text :: rest)
    (hplain : save = y.saves → (y.staging.row number).pending ≠ none →
      (B.write y.board number text).1
        = decide (B.shown (B.write y.board number text).2 number = text)) :
    Inv B (y.onWrite B save number text rest) := by
  have hsorted := h.sorted
  rw [hqueue] at hsorted
  obtain ⟨hhead, hrest⟩ := List.pairwise_cons.1 hsorted
  have hsub (order : Order) (horder : order ∈ rest) : order ∈ y.toBoard := by
    rw [hqueue]
    exact List.mem_cons_of_mem _ horder
  have hmem : .write save number text ∈ y.toBoard := by
    rw [hqueue]
    exact List.mem_cons_self
  have hunheard : y.verdict save number = none := h.unheard save number text hmem
  -- A setting that was heard of keeps its verdict.
  have hkeep (k n : ℕ) (accepted : Bool) (hv : y.verdict k n = some accepted) :
      ¬(save = k ∧ number = n) := by
    rintro ⟨rfl, rfl⟩
    exact absurd (hunheard.symm.trans hv) (Option.some_ne_none accepted).symm
  refine
    { orders_le := fun order horder => h.orders_le order (hsub order horder)
      answers_le := h.answers_le
      answered_le := h.answered_le
      notes_le := h.notes_le
      sorted := hrest
      unheard := fun k n text' hwrite => ?_
      verdict_le := fun k n hlt => ?_
      tracks := fun n => (h.tracks n).hear fun k accepted hv => ?_
      awaits := fun n w hpending => ?_ }
  · refine (if_neg ?_).trans (h.unheard k n text' (hsub _ hwrite))
    rintro ⟨rfl, rfl⟩
    exact absurd (hhead _ hwrite rfl) (Nat.lt_irrefl _)
  · refine (if_neg ?_).trans (h.verdict_le k n hlt)
    rintro ⟨rfl, rfl⟩
    exact absurd hlt (Nat.not_lt_of_le (h.orders_le _ hmem))
  · exact (if_neg (hkeep k n accepted hv)).trans hv
  · have ha := h.awaits n w hpending
    have hrows (text' : List Char) (hrow : .row y.saves n text' ∈ y.toHost) :
        ∃ accepted, (y.onWrite B save number text rest).verdict y.saves n = some accepted
          ∧ (accepted = true ↔ w = trim text') := by
      obtain ⟨accepted, hv, hiff⟩ := ha.rows text' hrow
      exact ⟨accepted, (if_neg (hkeep _ n accepted hv)).trans hv, hiff⟩
    refine
      { number := ha.number
        unanswered := ha.unanswered
        written := ?_
        reply := ha.reply.imp (fun ⟨hdump, hdone⟩ => ⟨?_, hdone⟩) id
        rows := hrows }
    · by_cases hn : number = n
      · subst hn
        rcases ha.written with hwritten | ⟨hno, -⟩
        · rw [hqueue] at hwritten
          rcases List.mem_cons.1 hwritten with heq | hwritten
          · -- This is the write of the save.
            obtain ⟨rfl, -, rfl⟩ := Order.write.inj heq
            refine .inr ⟨fun k text' hwrite => ?_, _, if_pos ⟨rfl, rfl⟩, ?_⟩
            · exact absurd (hhead _ hwrite rfl) (Nat.not_lt_of_le (h.orders_le _ (hsub _ hwrite)))
            · rw [hplain rfl (Option.ne_none_iff_exists'.2 ⟨w, hpending⟩), decide_eq_true_eq]
              rfl
          · exact .inl hwritten
        · exact absurd hmem (hno _ _)
      · -- The write of another setting.
        refine ha.written.imp (fun hwritten => ?_) fun ⟨hno, accepted, hv, hiff⟩ => ?_
        · rw [hqueue] at hwritten
          refine (List.mem_cons.1 hwritten).resolve_left fun heq => hn ?_
          exact (Order.write.inj heq).2.1.symm
        · refine ⟨fun k text' hwrite => hno k text' (hsub _ hwrite), accepted, ?_, ?_⟩
          · exact (if_neg fun heq => hn heq.2).trans hv
          · rw [hiff, ← B.frame y.board number text n ha.number hn]
            rfl
    · rw [hqueue] at hdump
      exact (List.mem_cons.1 hdump).resolve_left Order.noConfusion

/-- **A dump** shows every setting as it is after the writes that were sent before. -/
theorem onDump (h : Inv B y) {save : ℕ} {rest : List Order}
    (hqueue : y.toBoard = .dump save :: rest) : Inv B (y.onDump B save rest) := by
  have hsorted := h.sorted
  rw [hqueue] at hsorted
  obtain ⟨hhead, hrest⟩ := List.pairwise_cons.1 hsorted
  have hsub (order : Order) (horder : order ∈ rest) : order ∈ y.toBoard := by
    rw [hqueue]
    exact List.mem_cons_of_mem _ horder
  have hle : save ≤ y.saves := by
    refine h.orders_le (.dump save) ?_
    rw [hqueue]
    exact List.mem_cons_self
  refine
    { orders_le := fun order horder => h.orders_le order (hsub order horder)
      answers_le := fun answer hanswer => ?_
      answered_le := h.answered_le
      notes_le := h.notes_le
      sorted := hrest
      unheard := fun k n text' hwrite => h.unheard k n text' (hsub _ hwrite)
      verdict_le := h.verdict_le
      tracks := h.tracks
      awaits := fun n w hpending => ?_ }
  · rcases List.mem_append.1 hanswer with hanswer | hanswer
    · rcases List.mem_append.1 hanswer with hanswer | hanswer
      · exact h.answers_le answer hanswer
      · obtain ⟨row, -, rfl⟩ := List.mem_map.1 hanswer
        exact hle
    · rw [List.mem_singleton.1 hanswer]
      exact hle
  · have ha := h.awaits n w hpending
    have hwritten : .write y.saves n w ∈ rest
        ∨ (∀ k text', .write k n text' ∉ rest) ∧ ∃ accepted,
          y.verdict y.saves n = some accepted ∧ (accepted = true ↔ B.shown y.board n = w) := by
      refine ha.written.imp (fun hwritten => ?_) fun ⟨hno, hread⟩ =>
        ⟨fun k text' hwrite => hno k text' (hsub _ hwrite), hread⟩
      rw [hqueue] at hwritten
      exact (List.mem_cons.1 hwritten).resolve_left Order.noConfusion
    -- What the dump of the last save shows is after the write.
    have hdecided (heq : save = y.saves) : ∃ accepted,
        y.verdict y.saves n = some accepted ∧ (accepted = true ↔ B.shown y.board n = w) := by
      refine hwritten.elim (fun hwrite => ?_) fun hread => hread.2
      exact absurd (hhead _ hwrite) (by simp [Before, heq])
    refine
      { number := ha.number
        unanswered := ha.unanswered
        written := hwritten
        reply := ?_
        rows := fun text' hrow => ?_ }
    · rcases ha.reply with ⟨hdump, hdone⟩ | ⟨text', hrow⟩
      · by_cases heq : save = y.saves
        · right
          have hopen (answer : Answer) (hanswer : answer ∈ y.toHost
              ++ (B.dump y.board).map fun row => .row save row.1 row.2) :
              answer.goesOn y.saves = true := by
            refine decide_eq_true fun heq' => ?_
            subst heq'
            rcases List.mem_append.1 hanswer with hanswer | hanswer
            · exact hdone hanswer
            · obtain ⟨row, -, hrow⟩ := List.mem_map.1 hanswer
              exact Answer.noConfusion hrow
          refine ⟨B.shown y.board n, mem_takeWhile_append _ ?_⟩
          show _ ∈ List.takeWhile (Answer.goesOn y.saves) _
          rw [List.takeWhile_eq_self_iff.2 hopen]
          refine List.mem_append_right _ (List.mem_map.2 ⟨(n, B.shown y.board n), ?_, ?_⟩)
          · exact List.mem_map_of_mem ha.number
          · rw [heq]
            rfl
        · left
          rw [hqueue] at hdump
          refine ⟨(List.mem_cons.1 hdump).resolve_left fun heq' => heq (Order.dump.inj heq').symm,
            fun hmem => ?_⟩
          rcases List.mem_append.1 hmem with hmem | hmem
          · rcases List.mem_append.1 hmem with hmem | hmem
            · exact hdone hmem
            · obtain ⟨row, -, hrow⟩ := List.mem_map.1 hmem
              exact Answer.noConfusion hrow
          · exact heq (Answer.done.inj (List.mem_singleton.1 hmem)).symm
      · exact .inr ⟨text', mem_takeWhile_append _ (mem_takeWhile_append _ hrow)⟩
    · rcases List.mem_append.1 hrow with hrow | hrow
      · rcases List.mem_append.1 hrow with hrow | hrow
        · exact ha.rows text' hrow
        · obtain ⟨row, hrow, heq⟩ := List.mem_map.1 hrow
          obtain ⟨hsave, hnumber, htext⟩ := Answer.row.inj heq
          obtain ⟨m, -, rfl⟩ := List.mem_map.1 hrow
          obtain rfl : m = n := hnumber
          obtain ⟨accepted, hv, hiff⟩ := hdecided hsave
          refine ⟨accepted, hv, hiff.trans ?_⟩
          rw [← htext, B.trimmed y.board m ha.number, eq_comm]
      · exact absurd (List.mem_singleton.1 hrow) Answer.noConfusion

/-- **A row** settles the edit of its setting, and no other. -/
theorem onRow (h : Inv B y) {save number : ℕ} {text : List Char} {rest : List Answer}
    (hqueue : y.toHost = .row save number text :: rest)
    (hplain : (y.staging.row number).pending ≠ none → save = y.saves) :
    Inv B (y.onRow number text rest) := by
  have hsub (answer : Answer) (hanswer : answer ∈ rest) : answer ∈ y.toHost := by
    rw [hqueue]
    exact List.mem_cons_of_mem _ hanswer
  refine
    { h with
      answers_le := fun answer hanswer => h.answers_le answer (hsub answer hanswer)
      tracks := fun n => ?_
      awaits := fun n w hpending => ?_ }
  · unfold Link.onRow
    dsimp only
    rw [SettingsStaging.row_confirm]
    split_ifs with hn
    · subst hn
      refine (h.tracks number).confirm fun w hpending => ?_
      refine (h.awaits number w hpending).rows text ?_
      rw [hqueue, hplain (Option.ne_none_iff_exists'.2 ⟨w, hpending⟩)]
      exact List.mem_cons_self
    · exact h.tracks n
  · unfold Link.onRow at hpending
    dsimp only at hpending
    rw [SettingsStaging.row_confirm] at hpending
    split_ifs at hpending with hn
    · exact absurd ((Row.pending_confirm _ text).symm.trans hpending) (Option.some_ne_none w).symm
    · have ha := h.awaits n w hpending
      refine
        { ha with
          reply := ha.reply.imp (fun ⟨hdump, hdone⟩ => ⟨hdump, fun hmem => hdone (hsub _ hmem)⟩)
            fun ⟨text', hrow⟩ => ⟨text', ?_⟩
          rows := fun text' hrow => ha.rows text' (hsub _ hrow) }
      rw [hqueue, List.takeWhile_cons_of_pos (by simp [Answer.goesOn])] at hrow
      refine (List.mem_cons.1 hrow).resolve_left fun heq => hn ?_
      exact (Answer.row.inj heq).2.1.symm

/-- **The end of a dump** comes after its rows. -/
theorem onDone (h : Inv B y) {save : ℕ} {rest : List Answer}
    (hqueue : y.toHost = .done save :: rest) : Inv B (y.onDone save rest) := by
  have hsub (answer : Answer) (hanswer : answer ∈ rest) : answer ∈ y.toHost := by
    rw [hqueue]
    exact List.mem_cons_of_mem _ hanswer
  have hmem : .done save ∈ y.toHost := by
    rw [hqueue]
    exact List.mem_cons_self
  have hle : save ≤ y.saves := h.answers_le (.done save) hmem
  refine
    { h with
      answers_le := fun answer hanswer => h.answers_le answer (hsub answer hanswer)
      answered_le := max_le h.answered_le hle
      awaits := fun n w hpending => ?_ }
  have ha := h.awaits n w hpending
  have hne : save ≠ y.saves := by
    rintro rfl
    rcases ha.reply with ⟨-, hdone⟩ | ⟨text', hrow⟩
    · exact hdone hmem
    · rw [hqueue, List.takeWhile_cons_of_neg (by simp [Answer.goesOn])] at hrow
      exact absurd hrow List.not_mem_nil
  refine
    { ha with
      unanswered := max_lt ha.unanswered (lt_of_le_of_ne hle hne)
      reply := ha.reply.imp (fun ⟨hdump, hdone⟩ => ⟨hdump, fun hmem => hdone (hsub _ hmem)⟩)
        fun ⟨text', hrow⟩ => ⟨text', ?_⟩
      rows := fun text' hrow => ha.rows text' (hsub _ hrow) }
  have hother : (Answer.done save).goesOn y.saves = true :=
    decide_eq_true fun heq => hne (Answer.done.inj heq)
  rw [hqueue, List.takeWhile_cons_of_pos hother] at hrow
  exact (List.mem_cons.1 hrow).resolve_left Answer.noConfusion

/-- **A plain turn keeps the invariant.** -/
theorem step (h : Inv B y) {event : Event} (hplain : y.plain B event = true) :
    Inv B (y.step B event) := by
  cases event with
  | stage number value live => exact h.onStage number value live
  | save =>
    refine h.onSave fun edit hedit => ?_
    exact of_decide_eq_true (List.all_eq_true.1 hplain edit hedit)
  | refresh => exact h.onRefresh
  | board =>
    unfold Link.plain at hplain
    unfold Link.step Link.onBoard
    dsimp only at hplain ⊢
    cases hqueue : y.toBoard with
    | nil => exact h
    | cons order rest =>
      rw [hqueue] at hplain
      cases order with
      | write save number text => exact h.onWrite hqueue (of_decide_eq_true hplain)
      | dump save => exact h.onDump hqueue
  | host =>
    unfold Link.plain at hplain
    unfold Link.step Link.onHost
    dsimp only at hplain ⊢
    cases hqueue : y.toHost with
    | nil => exact h
    | cons answer rest =>
      rw [hqueue] at hplain
      cases answer with
      | row save number text => exact h.onRow hqueue (of_decide_eq_true hplain)
      | done save => exact h.onDone hqueue
  | report => exact h.onReport

/-- **A run of plain turns keeps the invariant.** -/
theorem run {events : List Event} (h : Inv B y) (hplain : y.plainRun B events = true) :
    Inv B (y.run B events) := by
  induction events generalizing y with
  | nil => exact h
  | cons event rest ih =>
    obtain ⟨hfirst, hrest⟩ := Bool.and_eq_true_iff.1 hplain
    exact ih (h.step hfirst) hrest

/-- **Where nothing is awaited that was answered, the dialog tells the truth.** -/
theorem tellsTruth (h : Inv B y) : y.TellsTruth where
  unsaved n text hedit := by
    have htracks := h.tracks n
    rw [hedit] at htracks
    generalize y.staging.row n = row at htracks ⊢
    cases htracks with
    | staged => rfl
  saved n text save hedit hanswered := by
    have htracks := h.tracks n
    have hawaits := h.awaits n text
    rw [hedit] at htracks
    cases hrow : y.staging.row n with
    | mk staged pending rejected =>
      rw [hrow] at htracks hawaits
      cases htracks with
      | awaited => exact absurd hanswered (Nat.not_le_of_lt (hawaits rfl).unanswered)
      | cleared _ _ hverdict hnote =>
        exact ⟨⟨_, hverdict⟩, by simp [hrow, hverdict], by simp [hrow, hverdict],
          by simp [hrow, hverdict, hnote]⟩
      | flagged _ hverdict =>
        exact ⟨⟨_, hverdict⟩, by simp [hrow, hverdict], by simp [hrow, hverdict],
          by simp [hrow, hverdict]⟩
      | noted _ _ hverdict hnote =>
        exact ⟨⟨_, hverdict⟩, by simp [hrow, hverdict], by simp [hrow, hverdict],
          by simp [hrow, hverdict, hnote]⟩

end Inv

/-- **The dialog tells the truth in plain runs.** -/
theorem tellsTruth_run (s : S) {events : List Event}
    (hplain : (start s).plainRun B events = true) : ((start s).run B events).TellsTruth :=
  ((inv_start s).run hplain).tellsTruth

end Link

end Galdr.Staging
