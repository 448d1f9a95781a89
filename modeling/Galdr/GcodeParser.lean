import Galdr.Gcode

/-!
# The G-code parser

A line is lexed into words, the words are folded into an accumulator and a copy
of the modal state, and the accumulator becomes at most one command. A word
that repeats a modal group, or that is not known, rejects the line; a rejected
line leaves the modal state as it was.
-/

namespace Galdr

/-! ## Words -/

namespace Lexer

/-- `u8::is_ascii_alphabetic`. -/
def isAsciiAlphabetic (b : UInt8) : Bool := (65 ≤ b && b ≤ 90) || (97 ≤ b && b ≤ 122)

/-- `u8::is_ascii_digit`. -/
def isAsciiDigit (b : UInt8) : Bool := 48 ≤ b && b ≤ 57

/-- `u8::to_ascii_uppercase`, of a letter. -/
def toAsciiUppercase (b : UInt8) : Char :=
  if 97 ≤ b then Char.ofNat (b.toNat - 32) else Char.ofNat b.toNat

/-- Blanks, and the line ends that a line should not have. -/
def isWhitespace (b : UInt8) : Bool := b = 32 || b = 9 || b = 13 || b = 10

/-- Skip whitespace and comments. A comment that is not closed goes to the end of the
line. -/
def skipInsignificant (inComment : Bool) : List UInt8 → List UInt8
  | [] => []
  | b :: rest =>
    if inComment then skipInsignificant (b != ')'.toUInt8) rest
    else if isWhitespace b then skipInsignificant false rest
    else if b = ';'.toUInt8 then []
    else if b = '('.toUInt8 then skipInsignificant true rest
    else b :: rest

/-- A sign. -/
def isSign (b : UInt8) : Bool := b = '+'.toUInt8 || b = '-'.toUInt8

/-- The bytes that form a number, and what is behind them. -/
def advanceOverNumber (bytes : List UInt8) : List UInt8 × List UInt8 :=
  let inNumber (b : UInt8) : Bool := isAsciiDigit b || b = '.'.toUInt8
  match bytes with
  | [] => ([], [])
  | b :: rest =>
    if isSign b then (b :: rest.takeWhile inNumber, rest.dropWhile inNumber)
    else (bytes.takeWhile inNumber, bytes.dropWhile inNumber)

end Lexer

section Parser

variable {K : Type} [Field K]

/-- The value of a digit. -/
def digitValue (b : UInt8) : K := ((b.toNat - 48 : ℕ) : K)

/-- Parse a number: a sign, digits, and one decimal point. -/
def parseF32 (token : List UInt8) : Except GcodeError K :=
  let (negative, rest) := match token with
    | [] => (false, [])
    | b :: rest => if Lexer.isSign b then (decide (b = '-'.toUInt8), rest) else (false, token)
  let digits := rest.takeWhile Lexer.isAsciiDigit
  let intPart : K := digits.foldl (fun value d => value * 10 + digitValue d) 0
  let (value, sawDigit, rest) : K × Bool × List UInt8 := match rest.dropWhile Lexer.isAsciiDigit with
    | [] => (intPart, digits != [], [])
    | b :: rest =>
      if b = '.'.toUInt8 then
        let fraction := rest.takeWhile Lexer.isAsciiDigit
        let value := (fraction.foldl (fun (value, scale) d =>
          (value + digitValue d * scale, scale * (1 / 10))) (intPart, (1 / 10 : K))).1
        (value, digits != [] || fraction != [], rest.dropWhile Lexer.isAsciiDigit)
      else (intPart, digits != [], b :: rest)
  if !sawDigit || rest != [] then .error .badNumberFormat
  else .ok (if negative then -value else value)

namespace Lexer

/-- The next word of a line, and the bytes behind it. -/
def nextWord (bytes : List UInt8) : Option (Except GcodeError (Word K) × List UInt8) :=
  match skipInsignificant false bytes with
  | [] => none
  | first :: rest =>
    if !isAsciiAlphabetic first then
      some (.error .expectedCommandLetterValue, first :: rest)
    else
      let (token, rest) :=
        advanceOverNumber (rest.dropWhile fun b => b = 32 || b = 9)
      if token = [] then some (.error .expectedCommandLetterValue, rest)
      else
        match parseF32 token with
        | .ok value => some (.ok ⟨toAsciiUppercase first, value⟩, rest)
        | .error e => some (.error e, rest)

/-- The words of a line up to the first error, with a bound on their number. -/
def wordsFrom : ℕ → List UInt8 → List (Except GcodeError (Word K))
  | 0, _ => []
  | fuel + 1, bytes =>
    match nextWord bytes with
    | none => []
    | some (.error e, _) => [.error e]
    | some (.ok word, rest) => .ok word :: wordsFrom fuel rest

/-- The words of a line up to the first error. Every word takes a byte. -/
def words (line : List UInt8) : List (Except GcodeError (Word K)) :=
  wordsFrom line.length line

theorem length_skipInsignificant_le (inComment : Bool) (bytes : List UInt8) :
    (skipInsignificant inComment bytes).length ≤ bytes.length := by
  induction bytes generalizing inComment with
  | nil => exact le_rfl
  | cons b rest ih =>
    unfold skipInsignificant
    split_ifs
    · exact (ih _).trans (Nat.le_succ _)
    · exact (ih _).trans (Nat.le_succ _)
    · exact Nat.zero_le _
    · exact (ih _).trans (Nat.le_succ _)
    · exact le_rfl

theorem length_advanceOverNumber_le (bytes : List UInt8) :
    (advanceOverNumber bytes).2.length ≤ bytes.length := by
  cases bytes with
  | nil => exact le_rfl
  | cons b rest =>
    unfold advanceOverNumber
    dsimp only
    split
    · exact (List.length_dropWhile_le _ _).trans (Nat.le_succ _)
    · exact List.length_dropWhile_le _ _

/-- A word takes a byte. -/
theorem length_lt_of_nextWord {bytes rest : List UInt8} {word : Word K}
    (h : nextWord bytes = some (.ok word, rest)) : rest.length < bytes.length := by
  have hskip := length_skipInsignificant_le false bytes
  unfold nextWord at h
  cases hbytes : skipInsignificant false bytes with
  | nil =>
    rw [hbytes] at h
    cases h
  | cons first tail =>
    rw [hbytes] at h hskip
    dsimp only at h
    split at h
    · cases h
    split at h
    · cases h
    split at h
    · obtain ⟨_, rfl⟩ := Prod.mk.inj (Option.some.inj h)
      calc (advanceOverNumber (tail.dropWhile fun b => b = 32 || b = 9)).2.length
          ≤ (tail.dropWhile fun b => b = 32 || b = 9).length := length_advanceOverNumber_le _
        _ ≤ tail.length := List.length_dropWhile_le _ _
        _ < bytes.length := hskip
    · cases h

theorem wordsFrom_succ (fuel : ℕ) (bytes : List UInt8) :
    wordsFrom (K := K) (fuel + 1) bytes = match nextWord bytes with
      | none => []
      | some (.error e, _) => [.error e]
      | some (.ok word, rest) => .ok word :: wordsFrom fuel rest := rfl

theorem wordsFrom_eq {m n : ℕ} {bytes : List UInt8} (hm : bytes.length ≤ m)
    (hn : bytes.length ≤ n) : wordsFrom (K := K) m bytes = wordsFrom n bytes := by
  induction m generalizing n bytes with
  | zero =>
    obtain rfl := List.length_eq_zero_iff.1 (Nat.le_zero.1 hm)
    cases n <;> rfl
  | succ m ih =>
    cases n with
    | zero =>
      obtain rfl := List.length_eq_zero_iff.1 (Nat.le_zero.1 hn)
      rfl
    | succ n =>
      unfold wordsFrom
      cases hnext : nextWord (K := K) bytes with
      | none => rfl
      | some next =>
        obtain ⟨result, rest⟩ := next
        cases result with
        | error e => rfl
        | ok word =>
          have hlt := length_lt_of_nextWord hnext
          dsimp only
          rw [ih (by omega : rest.length ≤ m) (by omega : rest.length ≤ n)]

/-- **No word is left out**: the words of a line go on to its end, or to the first error. -/
theorem words_eq (line : List UInt8) :
    words (K := K) line = match nextWord line with
      | none => []
      | some (.error e, _) => [.error e]
      | some (.ok word, rest) => .ok word :: words rest := by
  unfold words
  rw [wordsFrom_eq (n := line.length + 1) le_rfl (Nat.le_succ _), wordsFrom_succ]
  cases hnext : nextWord (K := K) line with
  | none => rfl
  | some next =>
    obtain ⟨result, rest⟩ := next
    cases result with
    | error e => rfl
    | ok word =>
      have hlt := length_lt_of_nextWord hnext
      dsimp only
      rw [wordsFrom_eq (by omega : rest.length ≤ line.length) le_rfl]

end Lexer

/-! ## The accumulator of a line -/

/-- The modal groups. -/
inductive Group
  | motion
  | units
  | distance
  | plane
  | spindle
  | stop
  | feedMode
  | coordinate
  | toolOffset
  | nonModal
  | coolant
  deriving DecidableEq, Repr

/-- The groups that a line has used. -/
abbrev GroupGuard := Group → Bool

/-- A coordinate operation before its words are known. -/
inductive PendingCoordinate
  /-- `G10`. -/
  | g10
  /-- `G92`. -/
  | g92Set
  /-- `G92.1`. -/
  | g92Clear
  /-- `G28.1` and `G30.1`. -/
  | storePredefined (index : ℕ)
  /-- `G43.1`. -/
  | applyTlo
  /-- `G49`. -/
  | cancelTlo
  deriving DecidableEq, Repr

/-- A pause before the line is done. -/
structure PendingPause where
  /-- `M1`. -/
  optional : Bool
  /-- `M6`. -/
  toolChange : Bool
  deriving DecidableEq, Repr

/-- The words of a line, folded. -/
structure LineAccumulator (K : Type) where
  /-- `G28`, or `G30`. -/
  pendingPredefined : Option Bool
  /-- `G4`. -/
  pendingDwell : Bool
  /-- `G38.x`. -/
  pendingProbe : Option ProbeKind
  /-- `M3`, `M4`, `M5`. -/
  pendingSpindle : Option SpindleState
  /-- `M2`, `M30`. -/
  pendingProgramEnd : Bool
  /-- `M0`, `M1`, `M6`. -/
  pendingPause : Option PendingPause
  /-- `M7`, `M8`, `M9`, folded with the coolants that were on. -/
  pendingCoolant : Option CoolantState
  /-- A coordinate operation. -/
  pendingCoordinate : Option PendingCoordinate
  /-- `G53`. -/
  machineCoords : Bool
  /-- `G54` to `G59`. -/
  selectedWcs : Bool
  /-- The `L` word. -/
  l : Option K
  /-- An `F` word is on the line. -/
  sawFeed : Bool
  /-- The axis words. -/
  axes : AxisWords K
  /-- The `I` word. -/
  i : Option K
  /-- The `J` word. -/
  j : Option K
  /-- The `K` word. -/
  k : Option K
  /-- The `P` word. -/
  p : Option K

/-- An accumulator without words. -/
def LineAccumulator.empty : LineAccumulator K where
  pendingPredefined := none
  pendingDwell := false
  pendingProbe := none
  pendingSpindle := none
  pendingProgramEnd := false
  pendingPause := none
  pendingCoolant := none
  pendingCoordinate := none
  machineCoords := false
  selectedWcs := false
  l := none
  sawFeed := false
  axes := .none
  i := none
  j := none
  k := none
  p := none

/-- A line as far as it is folded: the groups used, the accumulator, and the modal
state staged for the end of the line. -/
structure LineState (K : Type) where
  /-- The groups used. -/
  guard : GroupGuard
  /-- The accumulator. -/
  acc : LineAccumulator K
  /-- The staged modal state. -/
  next : ModalState K

namespace LineState

/-- A line without words. -/
def start (state : ModalState K) : LineState K := ⟨fun _ => false, .empty, state⟩

omit [Field K] in
/-- Use a group, which must not have been used, and go on. -/
def claim (s : LineState K) (group : Group) (stage : LineState K → LineState K) :
    Except GcodeError (LineState K) :=
  if s.guard group then .error .modalGroupViolation
  else .ok (stage { s with guard := fun g => g = group || s.guard g })

omit [Field K] in
/-- Change the accumulator. -/
def fold (s : LineState K) (f : LineAccumulator K → LineAccumulator K) : LineState K :=
  { s with acc := f s.acc }

omit [Field K] in
/-- Change the staged modal state. -/
def modal (s : LineState K) (f : ModalState K → ModalState K) : LineState K :=
  { s with next := f s.next }

end LineState

/-! ## Words and what they do -/

variable [LinearOrder K] [FloorRing K]

/-- The code of a `G` or `M` word that has a whole number. -/
def gCode (value : K) : Except GcodeError ℕ :=
  let rounded := roundf value
  if rounded < 0 ∨ 255 < rounded ∨ 1 / 1000 < |value - rounded| then
    .error .unsupportedCommand
  else .ok rounded.toNat

/-- The tool of a `T` word. -/
def toolNumber (value : K) : Except GcodeError ℕ :=
  let rounded := roundf value
  if rounded < 0 ∨ 65535 < rounded ∨ 1 / 1000 < |value - rounded| then
    .error .badToolNumber
  else .ok rounded.toNat

/-- The code of a `G` word in tenths, when it is not a whole number. -/
def fractionalCode (value : K) : Option ℤ :=
  let scaled := roundf (value * 10)
  if 1 / 100 < |value * 10 - scaled| ∨ clampI32 scaled % 10 = 0 then none
  else some (clampI32 scaled)

namespace LineState

omit [Field K] [LinearOrder K] [FloorRing K] in
/-- The `G` words that are not whole numbers. -/
def applyFractionalGWord (s : LineState K) (code : ℤ) : Except GcodeError (LineState K) :=
  if code = 281 then
    s.claim .nonModal fun s =>
      s.fold fun acc => { acc with pendingCoordinate := some (.storePredefined 0) }
  else if code = 301 then
    s.claim .nonModal fun s =>
      s.fold fun acc => { acc with pendingCoordinate := some (.storePredefined 1) }
  else if code = 431 then
    s.claim .toolOffset fun s =>
      (s.fold fun acc => { acc with pendingCoordinate := some .applyTlo }).modal
        fun m => { m with tloActive := true }
  else if code = 921 then
    s.claim .nonModal fun s =>
      s.fold fun acc => { acc with pendingCoordinate := some .g92Clear }
  else if code = 382 then
    s.claim .motion fun s => s.fold fun acc => { acc with pendingProbe := some .g38_2 }
  else if code = 383 then
    s.claim .motion fun s => s.fold fun acc => { acc with pendingProbe := some .g38_3 }
  else if code = 384 then
    s.claim .motion fun s => s.fold fun acc => { acc with pendingProbe := some .g38_4 }
  else if code = 385 then
    s.claim .motion fun s => s.fold fun acc => { acc with pendingProbe := some .g38_5 }
  else .error .unsupportedCommand

omit [Field K] [LinearOrder K] [FloorRing K] in
/-- The `G` words that are whole numbers. -/
def applyWholeGWord (s : LineState K) (code : ℕ) : Except GcodeError (LineState K) :=
  if code = 0 then s.claim .motion (·.modal fun m => { m with motion := .rapid })
  else if code = 1 then s.claim .motion (·.modal fun m => { m with motion := .linear })
  else if code = 2 then s.claim .motion (·.modal fun m => { m with motion := .arcCw })
  else if code = 3 then s.claim .motion (·.modal fun m => { m with motion := .arcCcw })
  else if code = 4 then s.claim .motion (·.fold fun acc => { acc with pendingDwell := true })
  else if code = 10 then
    s.claim .nonModal (·.fold fun acc => { acc with pendingCoordinate := some .g10 })
  else if code = 17 then s.claim .plane (·.modal fun m => { m with plane := .xy })
  else if code = 18 then s.claim .plane (·.modal fun m => { m with plane := .zx })
  else if code = 19 then s.claim .plane (·.modal fun m => { m with plane := .yz })
  else if code = 20 then s.claim .units (·.modal fun m => { m with units := .inch })
  else if code = 21 then s.claim .units (·.modal fun m => { m with units := .millimeter })
  else if code = 93 then
    s.claim .feedMode (·.modal fun m => { m with feedMode := .inverseTime })
  else if code = 94 then
    s.claim .feedMode (·.modal fun m => { m with feedMode := .unitsPerMin })
  else if code = 28 then
    s.claim .motion (·.fold fun acc => { acc with pendingPredefined := some true })
  else if code = 30 then
    s.claim .motion (·.fold fun acc => { acc with pendingPredefined := some false })
  else if code = 53 then .ok (s.fold fun acc => { acc with machineCoords := true })
  else if code = 49 then
    s.claim .toolOffset fun s =>
      (s.modal fun m => { m with tloActive := false }).fold
        fun acc => { acc with pendingCoordinate := some .cancelTlo }
  else if 54 ≤ code ∧ code ≤ 59 then
    s.claim .coordinate fun s =>
      (s.modal fun m => { m with wcs := code - 54 }).fold
        fun acc => { acc with selectedWcs := true }
  else if code = 90 then
    s.claim .distance (·.modal fun m => { m with distance := .absolute })
  else if code = 91 then
    s.claim .distance (·.modal fun m => { m with distance := .incremental })
  else if code = 92 then
    s.claim .nonModal (·.fold fun acc => { acc with pendingCoordinate := some .g92Set })
  else .error .unsupportedCommand

/-- A `G` word. -/
def applyGWord (s : LineState K) (value : K) : Except GcodeError (LineState K) :=
  match fractionalCode value with
  | some code => s.applyFractionalGWord code
  | none =>
    match gCode value with
    | .error e => .error e
    | .ok code => s.applyWholeGWord code

omit [Field K] [LinearOrder K] [FloorRing K] in
/-- Turn the coolants to a state: the word is pending and the modal state has it. -/
def setCoolant (s : LineState K) (f : CoolantState → CoolantState) : LineState K :=
  { s with
    next := { s.next with coolant := f s.next.coolant }
    acc := { s.acc with pendingCoolant := some (f s.next.coolant) } }

omit [Field K] [LinearOrder K] [FloorRing K] in
/-- Turn the spindle to a state: the word is pending and the modal state has it. -/
def setSpindle (s : LineState K) (spindle : SpindleState) : LineState K :=
  { s with
    next := { s.next with spindle := spindle }
    acc := { s.acc with pendingSpindle := some spindle } }

omit [Field K] [LinearOrder K] [FloorRing K] in
/-- The `M` words. `M6` commits the pending tool. -/
def applyMCode (s : LineState K) (code : ℕ) : Except GcodeError (LineState K) :=
  if code = 0 then
    s.claim .stop (·.fold fun acc => { acc with pendingPause := some ⟨false, false⟩ })
  else if code = 1 then
    s.claim .stop (·.fold fun acc => { acc with pendingPause := some ⟨true, false⟩ })
  else if code = 6 then
    s.claim .stop fun s =>
      (s.modal fun m => { m with currentTool := m.pendingTool, pendingTool := 0 }).fold
        fun acc => { acc with pendingPause := some ⟨false, true⟩ }
  else if code = 7 then s.claim .coolant (·.setCoolant fun c => { c with mist := true })
  else if code = 8 then s.claim .coolant (·.setCoolant fun c => { c with flood := true })
  else if code = 9 then s.claim .coolant (·.setCoolant fun _ => .off)
  else if code = 3 then s.claim .spindle (·.setSpindle .clockwise)
  else if code = 4 then s.claim .spindle (·.setSpindle .counterClockwise)
  else if code = 5 then s.claim .spindle (·.setSpindle .stop)
  else if code = 2 ∨ code = 30 then
    s.claim .stop (·.fold fun acc => { acc with pendingProgramEnd := true })
  else .error .unsupportedCommand

/-- An `M` word. -/
def applyMWord (s : LineState K) (value : K) : Except GcodeError (LineState K) :=
  match gCode value with
  | .error e => .error e
  | .ok code => s.applyMCode code

/-- Fold a word into a line. -/
def applyWord (s : LineState K) (word : Word K) : Except GcodeError (LineState K) :=
  match word.letter with
  | 'G' => s.applyGWord word.value
  | 'M' => s.applyMWord word.value
  | 'X' => .ok (s.fold fun acc => { acc with axes := { acc.axes with x := some word.value } })
  | 'Y' => .ok (s.fold fun acc => { acc with axes := { acc.axes with y := some word.value } })
  | 'Z' => .ok (s.fold fun acc => { acc with axes := { acc.axes with z := some word.value } })
  | 'A' => .ok (s.fold fun acc => { acc with axes := { acc.axes with a := some word.value } })
  | 'I' => .ok (s.fold fun acc => { acc with i := some word.value })
  | 'J' => .ok (s.fold fun acc => { acc with j := some word.value })
  | 'K' => .ok (s.fold fun acc => { acc with k := some word.value })
  | 'P' => .ok (s.fold fun acc => { acc with p := some word.value })
  | 'L' => .ok (s.fold fun acc => { acc with l := some word.value })
  | 'F' =>
    .ok ((s.modal fun m => { m with feed := word.value }).fold
      fun acc => { acc with sawFeed := true })
  | 'S' => .ok (s.modal fun m => { m with spindleSpeed := word.value })
  | 'T' =>
    match toolNumber word.value with
    | .error e => .error e
    | .ok tool => .ok (s.modal fun m => { m with pendingTool := tool })
  | 'N' => .ok s
  | _ => .error .unsupportedCommand

/-- Fold the words of a line; the first error ends it. -/
def applyWords : LineState K → List (Except GcodeError (Word K)) →
    Except GcodeError (LineState K)
  | s, [] => .ok s
  | _, .error e :: _ => .error e
  | s, .ok word :: rest =>
    match s.applyWord word with
    | .error e => .error e
    | .ok s => s.applyWords rest

end LineState

/-! ### Whole words -/

/-- A whole code has no tenths. -/
theorem fractionalCode_natCast [IsStrictOrderedRing K] {n : ℕ} (h : n ≤ 255) :
    fractionalCode (n : K) = none := by
  have hscaled : roundf ((n : K) * 10) = ((n * 10 : ℕ) : ℤ) := by
    have hwhole : (n : K) * 10 = (((n * 10 : ℕ) : ℤ) : K) := by push_cast; rfl
    rw [hwhole, roundf_intCast]
  unfold fractionalCode
  dsimp only
  rw [hscaled, if_pos]
  right
  unfold clampI32 i32Min i32Max
  push_cast
  omega

theorem gCode_natCast [IsStrictOrderedRing K] {n : ℕ} (h : n ≤ 255) : gCode (n : K) = .ok n := by
  have hround : roundf (n : K) = n := by exact_mod_cast roundf_intCast (n : ℤ)
  unfold gCode
  dsimp only
  rw [hround, if_neg]
  · rfl
  · push Not
    refine ⟨by omega, by exact_mod_cast h, ?_⟩
    rw [Int.cast_natCast, sub_self, abs_zero]
    norm_num

/-- A whole `G` word. -/
theorem applyWord_G [IsStrictOrderedRing K] (s : LineState K) {n : ℕ} (h : n ≤ 255) :
    s.applyWord ⟨'G', n⟩ = s.applyWholeGWord n := by
  show s.applyGWord n = _
  unfold LineState.applyGWord
  rw [fractionalCode_natCast h, gCode_natCast h]

/-! ## The command of a line -/

/-- The coordinate system of a `G10`: its `P` word, or the one in force before the
line. -/
def wcsIndexFromP (p : Option K) (fallback : ℕ) : ℕ :=
  match p with
  | some value =>
    let n := clampI32 (roundf value)
    if 1 ≤ n ∧ n ≤ wcsCount then (n - 1).toNat else fallback
  | none => fallback

/-- A coordinate operation with its words. -/
def resolveCoordinate (pending : PendingCoordinate) (acc : LineAccumulator K)
    (state : ModalState K) (activeWcsFallback : ℕ) : CoordinateOp K :=
  match pending with
  | .g10 =>
    let index := wcsIndexFromP acc.p activeWcsFallback
    if acc.l.any fun l => clampI32 (roundf l) = 20 then
      .setWcsOffsetToPosition index acc.axes state.units
    else .setWcsOffset index acc.axes state.units
  | .g92Set => .setG92ToPosition acc.axes state.units
  | .g92Clear => .clearG92
  | .storePredefined index => .storePredefined index
  | .applyTlo => .applyTlo (acc.axes.z.getD 0) state.units
  | .cancelTlo => .cancelTlo

omit [FloorRing K] in
/-- A line that needs a feed has none. Under inverse time it must have its own. -/
def feedIsUndefined (state : ModalState K) (sawFeed needsFeed : Bool) : Bool :=
  needsFeed && (decide (state.feed ≤ 0) || (state.feedMode == .inverseTime && !sawFeed))

omit [Field K] [LinearOrder K] [FloorRing K] in
/-- The axis words in the active motion mode. -/
def motionCommand (acc : LineAccumulator K) (state : ModalState K) : PlannerCommand K :=
  match state.motion with
  | .rapid => .move true acc.axes state.units state.distance state.feed state.feedMode
      acc.machineCoords
  | .linear => .move false acc.axes state.units state.distance state.feed state.feedMode
      acc.machineCoords
  | .arcCw => .arc true acc.axes acc.i acc.j acc.k state.plane state.units state.distance
      state.feed state.feedMode acc.machineCoords
  | .arcCcw => .arc false acc.axes acc.i acc.j acc.k state.plane state.units state.distance
      state.feed state.feedMode acc.machineCoords

omit [FloorRing K] in
/-- A probe needs a feed in units per minute, and no rotary axis. -/
def probeCommand (kind : ProbeKind) (acc : LineAccumulator K) (state : ModalState K) :
    Except GcodeError (Option (PlannerCommand K)) :=
  if acc.axes.a.isSome then .error .probeRotaryAxisWord
  else if state.feedMode = .inverseTime then .error .probeInverseTimeUnsupported
  else if feedIsUndefined state acc.sawFeed true then .error .feedRateUndefined
  else .ok (some (.probe kind acc.axes state.units state.distance state.feed))

/-- The command of a line, by precedence. -/
def emit (acc : LineAccumulator K) (state : ModalState K) (preLineWcs : ℕ) :
    Except GcodeError (Option (PlannerCommand K)) :=
  if acc.pendingProgramEnd then .ok (some .programEnd)
  else match acc.pendingPause with
  | some pause => .ok (some (.programPause pause.optional pause.toolChange))
  | none =>
  if acc.pendingDwell then .ok (some (.dwell (acc.p.getD 0)))
  else match acc.pendingPredefined with
  | some isG28 => .ok (some (.goToPredefined isG28 acc.axes state.units state.distance))
  | none =>
  match acc.pendingCoordinate with
  | some pending =>
    .ok (some (.coordinate (resolveCoordinate pending acc state preLineWcs)))
  | none =>
  match acc.pendingProbe with
  | some kind => probeCommand kind acc state
  | none =>
  if acc.axes.any then
    if feedIsUndefined state acc.sawFeed (state.motion != .rapid) then
      .error .feedRateUndefined
    else .ok (some (motionCommand acc state))
  else match acc.pendingSpindle with
  | some spindle => .ok (some (.spindle spindle state.spindleSpeed))
  | none =>
  match acc.pendingCoolant with
  | some coolant => .ok (some (.coolant coolant))
  | none =>
  if acc.selectedWcs then .ok (some (.coordinate (.selectWcs state.wcs)))
  else .ok none

/-- Parse a line: the command, and the modal state, which a rejected line leaves. -/
def parseLine (state : ModalState K) (line : List UInt8) :
    Except GcodeError (Option (PlannerCommand K)) × ModalState K :=
  match (LineState.start state).applyWords (Lexer.words line) with
  | .error e => (.error e, state)
  | .ok s =>
    if s.acc.pendingProbe.isSome && !s.acc.axes.any then (.error .probeNoAxis, state)
    else
      match emit s.acc s.next state.wcs with
      | .error e => (.error e, state)
      | .ok command => (.ok command, s.next)

/-! ## Jogs -/

/-- The words of a jog: a copy of the modal state, the axes, and whether there is a
feed. -/
structure JogState (K : Type) where
  /-- The copy. -/
  ctx : ModalState K
  /-- The axis words. -/
  axes : AxisWords K
  /-- An `F` word is on the line. -/
  seenFeed : Bool
  /-- `G53`. -/
  machineCoords : Bool

namespace JogState

/-- Fold a word into a jog. -/
def applyWord (s : JogState K) (word : Word K) : Except GcodeError (JogState K) :=
  match word.letter with
  | 'X' => .ok { s with axes := { s.axes with x := some word.value } }
  | 'Y' => .ok { s with axes := { s.axes with y := some word.value } }
  | 'Z' => .ok { s with axes := { s.axes with z := some word.value } }
  | 'A' => .ok { s with axes := { s.axes with a := some word.value } }
  | 'F' => .ok { s with ctx := { s.ctx with feed := word.value }, seenFeed := true }
  | 'G' =>
    match gCode word.value with
    | .error e => .error e
    | .ok code =>
      if code = 20 then .ok { s with ctx := { s.ctx with units := .inch } }
      else if code = 21 then .ok { s with ctx := { s.ctx with units := .millimeter } }
      else if code = 90 then .ok { s with ctx := { s.ctx with distance := .absolute } }
      else if code = 91 then .ok { s with ctx := { s.ctx with distance := .incremental } }
      else if code = 53 then .ok { s with machineCoords := true }
      else .error .unsupportedCommand
  | _ => .error .unsupportedCommand

/-- Fold the words of a jog; the first error ends it. -/
def applyWords : JogState K → List (Except GcodeError (Word K)) →
    Except GcodeError (JogState K)
  | s, [] => .ok s
  | _, .error e :: _ => .error e
  | s, .ok word :: rest =>
    match s.applyWord word with
    | .error e => .error e
    | .ok s => s.applyWords rest

end JogState

/-- Parse a jog against a copy of the modal state. -/
def parseJog (state : ModalState K) (line : List UInt8) : Except GcodeError (JogCommand K) :=
  match (⟨state, .none, false, false⟩ : JogState K).applyWords (Lexer.words line) with
  | .error e => .error e
  | .ok s =>
    if !s.seenFeed then .error .feedRateUndefined
    else if !s.axes.any then .error .jogNoAxis
    else .ok ⟨s.axes, s.ctx.distance, s.ctx.units, s.ctx.feed, s.machineCoords⟩

end Parser

end Galdr
