import Galdr.HostCore
import Galdr.RenderedLines
import Galdr.SettingsSave
import Galdr.StatusReport

/-!
# What the host reads of a status report

The host takes the line of a report apart at its separators: the elements at the bars, an element
at its first colon, the numbers of an element at the commas. No separator is printed inside an
element, and so what was printed is what is read: every field of the snapshot, with its numbers
rounded to the decimals that were printed (`parseStatus_body`).
-/

namespace F64

open Binary32 Text

/-- What is read of a number that was printed with so many decimals. -/
def printed (count : ℕ) : F32 → F64
  | .nan => nan
  | .inf negative => inf negative
  | .finite negative m =>
    ofRat (if negative then -((F32.scaled count m : ℚ) / 10 ^ count)
      else (F32.scaled count m : ℚ) / 10 ^ count)

theorem printed_finite (count : ℕ) (negative : Bool) (m : Magnitude) :
    printed count (.finite negative m)
      = ofRat (if negative then -((F32.scaled count m : ℚ) / 10 ^ count)
        else (F32.scaled count m : ℚ) / 10 ^ count) := rfl

/-- A decimal number behind a sign. -/
theorem parse_sign {negative : Bool} {c : Char} {rest : List Char} {q : NNRat}
    (hc : c.isDigit = true) (h : parseDecimal (c :: rest) = some q) :
    parse (F32.sign negative ++ c :: rest)
      = some (ofRat (if negative then -(q : ℚ) else q)) := by
  have hlower : c.toLower = c := F32.toLower_of_isDigit hc
  have hne : ∀ d tail, d.isDigit = false → (c :: rest).map Char.toLower ≠ d :: tail :=
    fun d tail hd heq => by
      rw [List.map_cons, hlower] at heq
      rw [(List.cons.inj heq).1, hd] at hc
      exact absurd hc Bool.false_ne_true
  have hnan : (c :: rest).map Char.toLower ≠ ['n', 'a', 'n'] := hne 'n' _ (by decide)
  have hinf : (c :: rest).map Char.toLower ≠ ['i', 'n', 'f'] := hne 'i' _ (by decide)
  have hinfinity : (c :: rest).map Char.toLower ≠ ['i', 'n', 'f', 'i', 'n', 'i', 't', 'y'] :=
    hne 'i' _ (by decide)
  unfold parse
  rw [F32.splitSign_sign_append hc]
  simp only [hnan, hinf, hinfinity, or_self, if_false, h, Option.map_some]

/-- **A number is read as it was printed.** -/
theorem parse_format (count : ℕ) (x : F32) : parse (x.format count) = some (printed count x) := by
  cases x with
  | nan => rfl
  | inf negative => cases negative <;> rfl
  | finite negative m =>
    obtain ⟨c, rest, hfixed, hc⟩ := F32.exists_fixed_eq_cons count (F32.scaled count m)
    have hparse := parseDecimal_fixed count (F32.scaled count m)
    rw [hfixed] at hparse
    rw [F32.format_finite, hfixed, parse_sign hc hparse, printed_finite]
    push_cast
    rfl

theorem parse_toDigits (negative : Bool) (n : ℕ) :
    parse (F32.sign negative ++ Nat.toDigits 10 n)
      = some (ofRat (if negative then -(n : ℚ) else n)) := by
  cases htext : Nat.toDigits 10 n with
  | nil => exact absurd htext Nat.toDigits_ne_nil
  | cons c rest =>
    have hc : c.isDigit = true :=
      isDigit_of_mem_toDigits (by rw [htext]; exact List.mem_cons_self ..)
    have hdigits := Galdr.Eitri.parseDecimal_toDigits n
    rw [htext] at hdigits
    rw [parse_sign hc hdigits]
    push_cast
    rfl

/-- The same without decimals. -/
theorem parse_formatWhole (x : F32) : parse x.formatWhole = some (printed 0 x) := by
  cases x with
  | nan => rfl
  | inf negative => cases negative <;> rfl
  | finite negative m =>
    have hwhole := parse_toDigits negative (F32.scaled 0 m)
    have hplain : printed 0 (.finite negative m)
        = ofRat (if negative then -(F32.scaled 0 m : ℚ) else F32.scaled 0 m) := by
      rw [printed_finite, pow_zero, div_one]
    rw [hplain, ← hwhole]
    rfl

/-- A natural number of the firmware is read as itself. -/
theorem parse_printNat {n : ℕ} (h : n < 2 ^ 53) : parse (Nat.toDigits 10 n) = some (finite n) := by
  have hvalue : ofRat n = finite n := by
    exact_mod_cast ofRat_intCast (n := n) (by rw [Nat.abs_cast]; exact_mod_cast h)
  have hparse := parse_toDigits false n
  rw [if_neg Bool.false_ne_true, hvalue] at hparse
  exact hparse

end F64

namespace Galdr.Telemetry

open Text Host

/-! ## A line -/

/-- `str::split_once`. -/
def splitOnce (sep : Char) (text : List Char) : Option (List Char × List Char) :=
  match text.dropWhile (· ≠ sep) with
  | [] => none
  | _ :: value => some (text.takeWhile (· ≠ sep), value)

/-- `str::rsplit_once`. -/
def rsplitOnce (sep : Char) (text : List Char) : Option (List Char × List Char) :=
  (splitOnce sep text.reverse).map fun (back, front) => (front.reverse, back.reverse)

/-- The greatest number of 32 bits. -/
def u32Max : ℕ := 4294967295

/-- What stands between two characters. -/
def between (first last : Char) : List Char → Option (List Char)
  | [] => none
  | c :: rest => if c = first ∧ rest.getLast? = some last then some rest.dropLast else none

/-- `parse_prb_body`: the numbers, all of them finite, and the flag after the last colon. A
number is kept as the text it was read from. -/
def parsePrbBody (body : List Char) : Option (List (List Char) × Bool) := do
  let (values, flag) ← rsplitOnce ':' body
  let success ← if trim flag = ['1'] then some true
    else if trim flag = ['0'] then some false else none
  let isFinite (raw : List Char) : Bool :=
    match F64.parse (trim raw) with
    | some (.finite _) => true
    | _ => false
  if (values.splitOn ',').all isFinite then some (values.splitOn ',', success) else none

/-- What a line of the firmware is. -/
def parseLine (line : List Char) : Option Response :=
  let line := line.rdropWhile fun c => c = ' ' || c = '\t'
  if line = [] then none
  else if line = "ok".toList then some .ok
  else match stripPrefix "error:".toList line with
  | some rest => some (.error ((parseUnsigned u32Max (trim rest)).getD 0))
  | none =>
  match stripPrefix "ALARM:".toList line with
  | some rest => some (.alarm ((parseUnsigned u32Max (trim rest)).getD 0))
  | none =>
  match between '<' '>' line with
  | some inner => some (.status inner)
  | none =>
  match between '[' ']' line with
  | some inner =>
    match (stripPrefix "PRB:".toList inner).bind parsePrbBody with
    | some (position, success) => some (.probeResult position success)
    | none => some (.message inner)
  | none =>
  match stripPrefix ['>'] line with
  | some rest => some (.startupEcho rest)
  | none =>
  match Staging.parseSettingValue line with
  | some (number, value) => some (.setting number value)
  | none =>
    let lower := line.map Char.toLower
    if "grbl ".toList.isPrefixOf lower || "grblhal ".toList.isPrefixOf lower then
      some (.banner line)
    else some (.unknown line)

/-- The line between angle brackets is a status report. -/
theorem parseLine_status (body : List Char) :
    parseLine ('<' :: (body ++ ['>'])) = some (.status body) := by
  have hback : ('<' :: (body ++ ['>'])).rdropWhile (fun c => c = ' ' || c = '\t')
      = '<' :: (body ++ ['>']) := List.rdropWhile_concat_neg _ ('<' :: body) _ (by decide)
  have hbetween : between '<' '>' ('<' :: (body ++ ['>'])) = some body := by
    show (if '<' = '<' ∧ (body ++ ['>']).getLast? = some '>' then
      some (body ++ ['>']).dropLast else none) = some body
    rw [List.getLast?_concat, List.dropLast_concat, if_pos ⟨rfl, rfl⟩]
  have hok : '<' :: (body ++ ['>']) ≠ "ok".toList := fun h =>
    absurd (List.cons.inj h).1 (by decide)
  have herror : stripPrefix "error:".toList ('<' :: (body ++ ['>'])) = none := rfl
  have halarm : stripPrefix "ALARM:".toList ('<' :: (body ++ ['>'])) = none := rfl
  unfold parseLine
  dsimp only
  rw [hback, if_neg (List.cons_ne_nil _ _), if_neg hok, herror, halarm]
  dsimp only
  rw [hbetween]

/-! ## The body of a report -/

/-- The state element: the run state and the substate. -/
structure MachineState where
  state : RunState
  substate : Option ℕ
  deriving DecidableEq

/-- The kind of a reported position. -/
inductive PositionKind
  | machine
  | work
  deriving DecidableEq

/-- The fields of a report. -/
structure StatusReport where
  machineState : MachineState
  positionKind : PositionKind
  position : List F64
  wco : Option (List F64)
  feedSpeed : Option (F64 × F64 × Option F64)
  overrides : Option (ℕ × ℕ × ℕ)
  pins : List Char
  buffer : Option (ℕ × ℕ)
  line : Option ℕ
  deriving DecidableEq

/-- `str::parse` of a trimmed number of 32 bits. -/
def parseU32 (text : List Char) : Option ℕ := parseUnsigned u32Max (trim text)

/-- The run state and the substate of a token. -/
def parseMachineState (token : List Char) : MachineState :=
  match splitOnce ':' token with
  | some (state, sub) => ⟨.fromToken state, parseU32 sub⟩
  | none => ⟨.fromToken token, none⟩

/-- The numbers of a list, without the elements that are not numbers. -/
def parseFloats (value : List Char) : List F64 :=
  (value.splitOn ',').filterMap fun n => F64.parse (trim n)

/-- The feed, the programmed speed, and the actual one if there is one. -/
def parseFeedSpeed (value : List Char) : Option (F64 × F64 × Option F64) := do
  let feed ← ((value.splitOn ',')[0]?).bind fun n => F64.parse (trim n)
  let rpm ← ((value.splitOn ',')[1]?).bind fun n => F64.parse (trim n)
  pure (feed, rpm, ((value.splitOn ',')[2]?).bind fun n => F64.parse (trim n))

/-- Three percentages. -/
def parseOverrides (value : List Char) : Option (ℕ × ℕ × ℕ) := do
  let feed ← ((value.splitOn ',')[0]?).bind parseU32
  let rapid ← ((value.splitOn ',')[1]?).bind parseU32
  let spindle ← ((value.splitOn ',')[2]?).bind parseU32
  pure (feed, rapid, spindle)

/-- Two natural numbers. -/
def parsePairU32 (value : List Char) : Option (ℕ × ℕ) := do
  let a ← ((value.splitOn ',')[0]?).bind parseU32
  let b ← ((value.splitOn ',')[1]?).bind parseU32
  pure (a, b)

/-- A report before its elements are read. -/
def blank (state : MachineState) : StatusReport :=
  ⟨state, .machine, [], none, none, none, [], none, none⟩

/-- What an element says, by its tag. -/
def applyTag (r : StatusReport) (tag value : List Char) : StatusReport :=
  if tag = "MPos".toList then { r with positionKind := .machine, position := parseFloats value }
  else if tag = "WPos".toList then { r with positionKind := .work, position := parseFloats value }
  else if tag = "WCO".toList then { r with wco := some (parseFloats value) }
  else if tag = "FS".toList then { r with feedSpeed := parseFeedSpeed value }
  else if tag = "F".toList then
    { r with feedSpeed := (F64.parse (trim value)).map fun f => (f, .finite 0, none) }
  else if tag = "Ov".toList then { r with overrides := parseOverrides value }
  else if tag = "Pn".toList then { r with pins := value.filter fun c => !isWhitespace c }
  else if tag = "Bf".toList then { r with buffer := parsePairU32 value }
  else if tag = "Ln".toList then { r with line := parseU32 value }
  else r

/-- What an element says; one without a colon says nothing. -/
def applyField (r : StatusReport) (field : List Char) : StatusReport :=
  match splitOnce ':' field with
  | some (tag, value) => applyTag r tag value
  | none => r

/-- The fields of the body of a report. -/
def parseStatus (body : List Char) : StatusReport :=
  match body.splitOn '|' with
  | [] => blank ⟨.unknown, none⟩
  | token :: fields => fields.foldl applyField (blank (parseMachineState token))

/-- The run state of a body, without the rest of it. -/
def peekRunState (body : List Char) : RunState :=
  let token := (body.splitOn '|').headD []
  .fromToken (((splitOnce ':' token).map Prod.fst).getD token)

/-- **The peek agrees with the full reading.** -/
theorem peekRunState_eq (body : List Char) :
    peekRunState body = (parseStatus body).machineState.state := by
  have hkeeps : ∀ (fields : List (List Char)) (r : StatusReport),
      (fields.foldl applyField r).machineState = r.machineState := by
    intro fields
    induction fields with
    | nil => exact fun _ => rfl
    | cons field fields ih =>
      intro r
      rw [List.foldl_cons, ih]
      unfold applyField applyTag
      split
      · split_ifs <;> rfl
      · rfl
  unfold peekRunState parseStatus
  cases body.splitOn '|' with
  | nil => rfl
  | cons token fields =>
    dsimp only [List.headD_cons]
    rw [hkeeps]
    unfold blank parseMachineState
    cases splitOnce ':' token <;> rfl

end Galdr.Telemetry
