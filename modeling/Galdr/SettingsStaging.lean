import Mathlib.Data.List.TakeWhile
import Mathlib.Tactic.Ring
import Std.Data.TreeMap
import Std.Data.TreeSet
import Galdr.Text

/-!
# The staging of settings edits

Edits of the firmware settings are staged by their numbers, and nothing is written until a
save. A save writes every staged edit and asks for a dump; the edit stays staged, and
awaits the row of the dump with its number. The row clears the edit if it shows what was
written, and flags it as rejected if it shows anything else.

The store is here with the link to a board, for any board with numbered settings: the
orders that wait for the board, the answers that wait for the host, and what is recorded
beside them to say what the dialog ought to show – the last edit of every setting, the save
it was part of, and what the board said of the write.
-/

namespace Galdr.Staging

open Text

/-! ## The store -/

/-- The edits by their numbers: those that are staged, those a save awaits the row of, and
those whose last save was rejected. -/
structure SettingsStaging where
  /-- The text of every staged edit. -/
  staged : Std.TreeMap ℕ (List Char) := ∅
  /-- What the last save wrote, until its row comes. -/
  pending : Std.TreeMap ℕ (List Char) := ∅
  /-- The rejected edits that were not reported. -/
  rejected : Std.TreeSet ℕ := ∅

/-- What an edit stages: nothing if it is blank or the live value. -/
def editOf (value : List Char) (live : Option (List Char)) : Option (List Char) :=
  if trim value = [] ∨ live = some (trim value) then none else some (trim value)

namespace SettingsStaging

/-- An edit of a setting; what a save awaited of it is forgotten. -/
def stage (g : SettingsStaging) (number : ℕ) (value : List Char) (live : Option (List Char)) :
    SettingsStaging where
  staged := match editOf value live with
    | none => g.staged.erase number
    | some trimmed => g.staged.insert number trimmed
  pending := g.pending.erase number
  rejected := g.rejected.erase number

/-- The writes of a save, and the store that awaits their rows. -/
def beginSave (g : SettingsStaging) : List (ℕ × List Char) × SettingsStaging :=
  (g.staged.toList, { g with rejected := ∅, pending := g.staged })

/-- A row of a dump is folded in. -/
def confirm (g : SettingsStaging) (number : ℕ) (live : List Char) : SettingsStaging :=
  match g.pending[number]? with
  | none => g
  | some written =>
    if written = trim live then
      { staged := g.staged.erase number, pending := g.pending.erase number,
        rejected := g.rejected.erase number }
    else { g with pending := g.pending.erase number, rejected := g.rejected.insert number }

/-- The rejected edits, each to be reported once. -/
def takeRejected (g : SettingsStaging) : List ℕ × SettingsStaging :=
  (g.rejected.toList, { g with rejected := ∅ })

end SettingsStaging

/-- What the store knows of one setting. -/
structure Row where
  /-- The staged edit. -/
  staged : Option (List Char)
  /-- What awaits its row. -/
  pending : Option (List Char)
  /-- The edit is flagged. -/
  rejected : Bool

namespace Row

/-- A row with no edit. -/
def blank : Row := ⟨none, none, false⟩

/-- A save awaits what is staged. -/
def save (row : Row) : Row := ⟨row.staged, row.staged, false⟩

/-- The row of a dump is folded into a row of the store. -/
def confirm (row : Row) (live : List Char) : Row :=
  match row.pending with
  | none => row
  | some written => if written = trim live then blank else ⟨row.staged, none, true⟩

@[simp] theorem pending_confirm (row : Row) (live : List Char) :
    (row.confirm live).pending = none := by
  unfold confirm
  split
  · assumption
  · split <;> rfl

end Row

namespace SettingsStaging

variable (g : SettingsStaging) (n m : ℕ)

/-- The row of a setting. -/
def row : Row := ⟨g.staged[n]?, g.pending[n]?, g.rejected.contains n⟩

theorem row_stage (value : List Char) (live : Option (List Char)) :
    (g.stage n value live).row m
      = if n = m then ⟨editOf value live, none, false⟩ else g.row m := by
  unfold row stage
  by_cases h : n = m
  · cases editOf value live <;> simp [h]
  · cases editOf value live <;> simp [h, Std.TreeMap.getElem?_insert, Std.TreeMap.getElem?_erase]

theorem row_beginSave : g.beginSave.2.row m = (g.row m).save := by
  simp [row, beginSave, Row.save]

/-- **A row of a dump is folded into its own row**, and into no other. -/
theorem row_confirm (live : List Char) :
    (g.confirm n live).row m = if n = m then (g.row m).confirm live else g.row m := by
  unfold confirm row Row.confirm
  by_cases h : n = m
  · subst h
    cases hp : g.pending[n]? with
    | none => simp [hp]
    | some written =>
      by_cases heq : written = trim live <;> simp [heq, Row.blank]
  · cases hp : g.pending[n]? with
    | none => simp [h]
    | some written =>
      by_cases heq : written = trim live <;> simp [h, heq, Std.TreeMap.getElem?_erase]

theorem row_takeRejected :
    g.takeRejected.2.row m = { g.row m with rejected := false } := by
  simp [row, takeRejected]

theorem mem_beginSave {text : List Char} :
    (n, text) ∈ g.beginSave.1 ↔ (g.row n).staged = some text :=
  Std.TreeMap.mem_toList_iff_getElem?_eq_some

theorem contains_staged : g.staged.contains n = (g.row n).staged.isSome :=
  Std.TreeMap.contains_eq_isSome_getElem?

theorem mem_takeRejected : n ∈ g.takeRejected.1 ↔ (g.row n).rejected = true :=
  Std.TreeSet.mem_toList.trans Std.TreeSet.mem_iff_contains

/-- A save writes a setting once. -/
theorem pairwise_beginSave : g.beginSave.1.Pairwise fun edit later => edit.1 ≠ later.1 :=
  Std.TreeMap.distinct_keys_toList.imp fun h heq => h (by simp [heq])

end SettingsStaging

end Galdr.Staging
