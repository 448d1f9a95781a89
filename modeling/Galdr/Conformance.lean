import Galdr.FloatText
import Galdr.ProgramText

/-!
# The conformance checker

The checker reads a program on its own, before it is streamed: it strips the comments
of every line, cuts what is left into letters and their values, and compares the codes
with the list of those the firmware knows. It looks at the words of a line one at a
time, and not at how they fit together.
-/

namespace Galdr.Eitri

open Text (parseDecimal splitSign utf8)

/-- A rule of the contract that a line breaks. -/
inductive Reason
  | carriageReturn
  | lineTooLong (length : ℕ)
  | unsupportedCode (word : List Char)
  | lineNumber
  | missingFeed
  | feedOnRapid
  | arcMissingOffset
  | arcRadiusForm
  | coordPrecision (word : List Char)
  | noProgramEnd
  deriving DecidableEq, Repr

/-- A violation, and the line it is on; the whole program is line zero. -/
structure Violation where
  /-- The number of the line. -/
  line : ℕ
  /-- What is wrong. -/
  reason : Reason
  deriving DecidableEq, Repr

/-- A letter, and the text up to the next letter or blank. -/
structure Word where
  /-- The letter, in upper case. -/
  letter : Char
  /-- The text. -/
  value : List Char
  deriving DecidableEq, Repr

/-! ## Words -/

/-- Without what is in parentheses, which nest, and behind a semicolon. -/
def stripComment (depth : ℕ) : List Char → List Char
  | [] => []
  | c :: rest =>
    if c = ';' ∧ depth = 0 then []
    else if c = '(' then stripComment (depth + 1) rest
    else if c = ')' ∧ 0 < depth then stripComment (depth - 1) rest
    else if depth = 0 then c :: stripComment depth rest
    else stripComment depth rest

/-- A character of a value. -/
def inValue (c : Char) : Bool := !c.isAlpha && !Text.isWhitespace c

/-- The words of a line without comments. A value has no letter in it, so that the scan
passes over it when it looks for the next word. -/
def tokenize : List Char → List Word
  | [] => []
  | c :: rest =>
    if c.isAlpha then ⟨c.toUpper, rest.takeWhile inValue⟩ :: tokenize rest
    else tokenize rest

/-! ## Codes -/

/-- A code, as it is compared: two numbers print alike when they are the same. -/
inductive CanonicalCode
  | number (value : ℚ)
  | text (code : List Char)
  deriving DecidableEq

/-- `str::parse` of a value, which holds no letter. -/
def parseF64 (text : List Char) : Option ℚ :=
  let (negative, rest) := splitSign text
  (parseDecimal rest).map fun q => if negative then -(q : ℚ) else q

/-- A code, without the zeros that do not matter. -/
def canonicalCode (code : List Char) : CanonicalCode :=
  match parseF64 (Text.trim code) with
  | some value => .number value
  | none => .text (Text.trim code)

/-- The codes of the contract. -/
structure SupportedCodes where
  /-- The `G` codes. -/
  g : List CanonicalCode
  /-- The `M` codes. -/
  m : List CanonicalCode

/-- The codes of the contract. -/
def SupportedCodes.new : SupportedCodes where
  g := [0, 1, 2, 3, 4, 28, 281 / 10, 30, 301 / 10, 382 / 10, 383 / 10, 384 / 10, 385 / 10, 10,
    431 / 10, 49, 53, 54, 55, 56, 57, 58, 59, 92, 921 / 10, 17, 18, 19, 20, 21, 90, 91, 93,
    94].map .number
  m := [0, 1, 2, 3, 4, 5, 6, 7, 8, 9, 30].map .number

/-- So many digits behind a point. -/
def hasMinDecimals (value : List Char) (min : ℕ) : Bool :=
  match value.dropWhile (· != '.') with
  | [] => false
  | _ :: fraction => min ≤ (fraction.filter Char.isDigit).length

/-! ## Lines -/

/-- What is wrong with a word by itself. -/
def checkWord (lineNo : ℕ) (allow : SupportedCodes) (w : Word) : List Violation :=
  if w.letter = 'N' then [⟨lineNo, .lineNumber⟩]
  else if w.letter = 'G' then
    if canonicalCode w.value ∈ allow.g then [] else [⟨lineNo, .unsupportedCode ('G' :: w.value)⟩]
  else if w.letter = 'M' then
    if canonicalCode w.value ∈ allow.m then [] else [⟨lineNo, .unsupportedCode ('M' :: w.value)⟩]
  else if w.letter ∈ ['X', 'Y', 'Z', 'I', 'J', 'K'] ∧ hasMinDecimals w.value 3 = false then
    [⟨lineNo, .coordPrecision (w.letter :: w.value)⟩]
  else []

/-- A violation, if a rule is broken. -/
def violationIf (broken : Bool) (lineNo : ℕ) (reason : Reason) : List Violation :=
  if broken then [⟨lineNo, reason⟩] else []

/-- What is wrong with the words of a line. -/
def checkLine (lineNo : ℕ) (words : List Word) (allow : SupportedCodes) : List Violation :=
  let has (letter : Char) : Bool := words.any fun w => w.letter == letter
  let isMotion (code : ℚ) : Bool :=
    words.any fun w => w.letter == 'G' && canonicalCode w.value == .number code
  let isArc := isMotion 2 || isMotion 3
  words.flatMap (checkWord lineNo allow)
    ++ violationIf ((isMotion 1 || isArc) && !has 'F') lineNo .missingFeed
    ++ violationIf (isMotion 0 && has 'F') lineNo .feedOnRapid
    ++ violationIf (isArc && !(has 'I' || has 'J' || has 'K')) lineNo .arcMissingOffset
    ++ violationIf (isArc && has 'R') lineNo .arcRadiusForm

/-- The words of a line. -/
def lineWords (raw : List Char) : List Word := tokenize (stripComment 0 raw)

/-- What is wrong with the lines, of which the first has the number `lineNo`. -/
def checkLines (allow : SupportedCodes) : ℕ → List (List Char) → List Violation
  | _, [] => []
  | lineNo, raw :: rest =>
    violationIf (256 < (utf8 raw).length) lineNo (.lineTooLong (utf8 raw).length)
      ++ (if lineWords raw = [] then [] else checkLine lineNo (lineWords raw) allow)
      ++ checkLines allow (lineNo + 1) rest

/-- The last line that has words ends the program. -/
def endsOk (raws : List (List Char)) : Bool :=
  match ((raws.map lineWords).filter (· ≠ [])).getLast? with
  | some words => words.any fun w =>
      w.letter == 'M' && (w.value == ['2'] || w.value == ['3', '0'])
  | none => false

/-- All that is wrong with a program. -/
def checkGrblConformance (text : List Char) : List Violation :=
  violationIf (text.contains '\r') 0 .carriageReturn
    ++ checkLines .new 1 (Text.lines text)
    ++ violationIf (!endsOk (Text.lines text)) 0 .noProgramEnd

/-- Nothing is wrong with a program. -/
def isGrblConformant (text : List Char) : Bool := (checkGrblConformance text).isEmpty

end Galdr.Eitri
