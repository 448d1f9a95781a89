import Galdr.SettingsLink
import Galdr.SettingsReplay

/-!
# The dialog of the firmware settings

The firmware is a board: a save writes the line `$<n>=<value>` of every staged edit, the
firmware answers each with `ok` or `error:N`, and `$$` prints the line of every setting,
which the host reads as the number and the text of a row.

So a saved edit is judged by its text. An integer setting is printed without leading zeros,
a length with three decimals, a switch as 0 or 1: an accepted value in any other spelling –
`500` where the row reads `500.000`, which is how every whole number of a length is typed –
is shown otherwise than it was written, and the dialog keeps it as a rejected edit
(`not_tellsTruth`).
-/

namespace Galdr.Staging

open Text Settings

/-! ## The lines -/

/-- The line of a write. -/
def settingWriteLine (number : ℕ) (value : List Char) : List Char :=
  '$' :: Nat.toDigits 10 number ++ '=' :: trim value

/-- The row of a line: a number, and a text without what is in parentheses after it. -/
def parseSettingValue (line : List Char) : Option (ℕ × List Char) := do
  let body ← stripPrefix ['$'] (trim line)
  let (key, value) ← splitOnce body
  let number ← parseUnsigned 4294967295 (trim key)
  pure (number, trim (value.takeWhile (· ≠ '(')))

/-! ## The board -/

/-- The text of a setting, as the firmware prints it. -/
def shownBy (s : Settings) (n : ℕ) : List Char :=
  match lookupDescriptor n with
  | none => []
  | some (field, axis) => field.format s axis

/-- The firmware takes the line of a write: whether it answers `ok`, and its settings then. -/
def takeWrite (s : Settings) (n : ℕ) (value : List Char) : Bool × Settings :=
  ((s.writeLine (settingWriteLine n value)).1.toBool, (s.writeLine (settingWriteLine n value)).2)

theorem setCommand_trim (s : Settings) (n : ℕ) (value : List Char) :
    s.setCommand n (trim value) = s.setCommand n value := by
  unfold setCommand
  rw [trim_trim]

/-- **The line of a write is taken as a write of the setting.** -/
theorem takeWrite_eq (s : Settings) (n : ℕ) (value : List Char) :
    takeWrite s n value = ((s.setCommand n value).1.toBool, (s.setCommand n value).2) := by
  unfold takeWrite settingWriteLine
  rw [writeLine_eq, trim_trim, setCommand_trim]
  split_ifs with hn
  · rfl
  · have hlookup : lookupDescriptor n = none := by
      refine Option.eq_none_iff_forall_not_mem.2 fun slot hslot => hn ?_
      exact number_le_of_mem_dumpRows _ (mem_dumpRows_of_lookup hslot)
    unfold setCommand
    rw [hlookup]
    rfl

/-- Two numbers address two settings. -/
theorem lookup_injective {n m : ℕ} {slot : SettingField × Fin 4}
    (hn : lookupDescriptor n = some slot) (hm : lookupDescriptor m = some slot) : n = m := by
  have heq := List.inj_on_of_nodup_map nodup_dumpRows (mem_dumpRows_of_lookup hn)
    (mem_dumpRows_of_lookup hm) rfl
  exact (Prod.mk.inj heq).1

/-- **The firmware is a board.** -/
def firmware : Board Settings where
  write := takeWrite
  numbers := settingNumbers
  shown := shownBy
  frame s n value m _ hne := by
    rw [takeWrite_eq]
    unfold shownBy
    cases hm : lookupDescriptor m with
    | none => rfl
    | some slot =>
      rcases setCommand_cases s n value with ⟨e, heq⟩ | ⟨field, axis, v, hn, -, heq, -⟩
      · rw [heq]
      · rw [heq]
        have hother : slot ≠ (field, axis) := fun h => hne (lookup_injective hn (h ▸ hm))
        exact congrArg slot.1.slot.policy.print
          (get_set_row s (mem_dumpRows_of_lookup hn) (mem_dumpRows_of_lookup hm) hother v)
  trimmed s n _ := by
    unfold shownBy
    cases lookupDescriptor n with
    | none => rfl
    | some slot => exact trim_eq_self (slot.1.slot.policy.solid_print _)

/-! ## Whether the dialog tells the truth -/

/-- **The dialog of the settings tells the truth in plain runs.** -/
theorem settings_tellsTruth (s : Settings) {events : List Event}
    (hplain : (Link.start s).plainRun firmware events = true) :
    ((Link.start s).run firmware events).TellsTruth :=
  Link.tellsTruth_run s hplain

/-- A save of edits that the firmware answers, and the dump that follows. -/
def answeredSave (edits : List (ℕ × List Char)) : List Event :=
  edits.map (fun edit => .stage edit.1 edit.2 none) ++ [.save]
    ++ List.replicate (edits.length + 1) .board
    ++ List.replicate (settingNumbers.length + 1) .host ++ [.report]

/-- A step pulse that is accepted, and a step delay that is refused. -/
theorem answeredSave_tellsTruth :
    ((Link.start default).run firmware
        (answeredSave [(0, ['1', '2']), (1, ['-', '1'])])).TellsTruth
      ∧ ((Link.start default).run firmware
        (answeredSave [(0, ['1', '2']), (1, ['-', '1'])])).answered = 1 :=
  ⟨settings_tellsTruth default (by decide +kernel), by decide +kernel⟩

/-- **An accepted edit is not always cleared**: 500 steps per millimetre are shown as
`500.000`, and the edit is reported as rejected. -/
theorem not_tellsTruth : ¬∀ (s : Settings), s.sanitized = s → ∀ events : List Event,
    ((Link.start s).run firmware events).TellsTruth := by
  intro htruth
  have hsaved := (htruth default sane_default.sanitized_eq
    (answeredSave [(100, ['5', '0', '0'])])).saved 100 ['5', '0', '0'] 1
      (by decide +kernel) (by decide +kernel)
  have haccepted : ((Link.start default).run firmware
      (answeredSave [(100, ['5', '0', '0'])])).verdict 1 100 = some true := by
    decide +kernel
  have hkept : (((Link.start default).run firmware
      (answeredSave [(100, ['5', '0', '0'])])).staging.row 100).staged
        = some ['5', '0', '0'] := by
    decide +kernel
  exact absurd (hkept.symm.trans (hsaved.cleared.2 haccepted)) (Option.some_ne_none _)

end Galdr.Staging
