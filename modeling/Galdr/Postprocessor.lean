import Galdr.Emit
import Galdr.FloatText
import Galdr.ProgramText

/-!
# From moves to text

A postprocessor renders every call of the emitter as lines of text. Numbers are
printed with a fixed count of decimals, halves away from zero; comments lose the
characters that would end them. A dialect says how a program begins and ends, and
what its numbers and comments look like; the lines between are the same for all.
-/

namespace Galdr.Eitri

open Text (fixed)

/-! ## Formats -/

/-- The unit of length of a program. -/
inductive LengthUnit
  | millimeters
  | inches
  deriving DecidableEq, Repr

/-- How a comment is written. -/
inductive CommentStyle
  /-- In parentheses. -/
  | paren
  /-- From a semicolon on. -/
  | semicolon
  /-- Not at all. -/
  | none
  deriving DecidableEq, Repr

/-- How a line ends. -/
inductive LineEnding
  | lf
  | crlf
  deriving DecidableEq, Repr

/-- The characters a line ends with. -/
def LineEnding.asStr : LineEnding → List Char
  | .lf => ['\n']
  | .crlf => ['\r', '\n']

/-- What the text of a dialect looks like. -/
structure OutputFormat where
  /-- The decimals of a coordinate. -/
  coordDecimals : ℕ
  /-- The decimals of a feed. -/
  feedDecimals : ℕ
  /-- The unit of length. -/
  units : LengthUnit
  /-- How a comment is written. -/
  commentStyle : CommentStyle
  /-- How a line ends. -/
  lineEnding : LineEnding
  deriving DecidableEq, Repr

/-- A signed number with so many decimals, of which it is `n`. -/
def signedFixed (decimals : ℕ) (n : ℤ) : List Char :=
  F32.sign (decide (n < 0)) ++ fixed decimals n.natAbs

/-- `fmt_fixed`: zero has no sign. -/
def fmtFixed (value : ℚ) (decimals : ℕ) : List Char :=
  signedFixed decimals (roundf (value * 10 ^ decimals))

/-- `format!` with so many decimals: halves to even. -/
def formatFixed (value : ℚ) (decimals : ℕ) : List Char :=
  F32.sign (decide (value < 0)) ++ fixed decimals (Binary32.halfEven |value * 10 ^ decimals|).natAbs

/-- Without the characters that would end a comment. -/
def sanitizeComment (text : List Char) (stripParens : Bool) : List Char :=
  text.filter fun c =>
    c != '\n' && c != '\r' && !(stripParens && (c == '(' || c == ')'))

namespace OutputFormat

/-- The format of a dialect that asks for nothing else. -/
def default : OutputFormat := ⟨4, 1, .millimeters, .paren, .lf⟩

/-- The word of the unit. -/
def unitsWord (f : OutputFormat) : List Char :=
  match f.units with
  | .millimeters => ['G', '2', '1']
  | .inches => ['G', '2', '0']

/-- A coordinate. -/
def coord (f : OutputFormat) (value : ℚ) : List Char := fmtFixed value f.coordDecimals

/-- A feed. -/
def feed (f : OutputFormat) (value : ℚ) : List Char := fmtFixed value f.feedDecimals

/-- A comment, if the dialect has them. -/
def comment (f : OutputFormat) (text : List Char) : Option (List Char) :=
  match f.commentStyle with
  | .none => none
  | .paren => some ('(' :: sanitizeComment text true ++ [')'])
  | .semicolon => some (';' :: ' ' :: sanitizeComment text false)

end OutputFormat

/-! ## Programs -/

/-- A program under construction. -/
structure Program where
  /-- What its text looks like. -/
  format : OutputFormat
  /-- Its lines. -/
  lines : List (List Char)
  deriving DecidableEq, Repr

namespace Program

/-- No lines yet. -/
def new (format : OutputFormat) : Program := ⟨format, []⟩

/-- Another line, without the blanks at its end. -/
def push (p : Program) (line : List Char) : Program :=
  { p with lines := p.lines ++ [line.rdropWhile Text.isWhitespace] }

/-- A comment, if the dialect has them. -/
def comment (p : Program) (text : List Char) : Program :=
  match p.format.comment text with
  | some line => { p with lines := p.lines ++ [line] }
  | none => p

/-- The text. -/
def render (p : Program) : List Char := p.lines.flatMap (· ++ p.format.lineEnding.asStr)

end Program

/-! ## Postprocessors -/

/-- A dialect. -/
structure Postprocessor where
  /-- What its text looks like. -/
  format : OutputFormat
  /-- How a program begins. -/
  startCode : Program → JobContext → Program
  /-- How a program ends. -/
  endCode : Program → JobContext → Program

/-- An axis word, if there is one. -/
def axisWord (f : OutputFormat) (letter : Char) (value : Option ℚ) : List Char :=
  match value with
  | some v => ' ' :: letter :: f.coord v
  | none => []

/-- The axis words of a move. -/
def axesText (f : OutputFormat) (axes : Axes ℚ) : List Char :=
  axisWord f 'X' axes.x ++ axisWord f 'Y' axes.y ++ axisWord f 'Z' axes.z

/-- The motion word of an arc. -/
def ArcDir.word : ArcDir → List Char
  | .ccw => ['G', '3']
  | .cw => ['G', '2']

/-- The greatest number of 64 bits, with a sign. -/
def i64Max : ℤ := 2 ^ 63 - 1

/-- `format!` of a signed number. -/
def signedText (n : ℤ) : List Char := F32.sign (decide (n < 0)) ++ Nat.toDigits 10 n.natAbs

namespace Postprocessor

/-- A call, as lines. -/
def call (post : Postprocessor) (p : Program) : Hook ℚ → Program
  | .startCode job => post.startCode p job
  | .endCode job => post.endCode p job
  | .rapid axes => p.push (['G', '0'] ++ axesText p.format axes)
  | .linear axes feed =>
    p.push (['G', '1'] ++ axesText p.format axes ++ ' ' :: 'F' :: p.format.feed feed)
  | .arc arc feed =>
    p.push (arc.dir.word ++ ' ' :: 'X' :: p.format.coord arc.x ++ ' ' :: 'Y' :: p.format.coord arc.y
      ++ ' ' :: 'I' :: p.format.coord arc.offset.i ++ ' ' :: 'J' :: p.format.coord arc.offset.j
      ++ ' ' :: 'F' :: p.format.feed feed)
  | .dwell seconds => p.push (['G', '4', ' ', 'P'] ++ formatFixed seconds 3)
  | .spindleOn rpm =>
    -- the cast to 64 bits saturates
    p.push (['M', '3', ' ', 'S']
      ++ signedText (max (-i64Max - 1) (min (roundf rpm) i64Max)))
  | .toolChange tool =>
    (p.comment ("tool ".toList ++ Nat.toDigits 10 tool.number.toNat ++ " — ".toList
      ++ formatFixed tool.diameter 3 ++ " mm".toList)).push
      (['M', '6', ' ', 'T'] ++ Nat.toDigits 10 tool.number.toNat)

/-- The calls, as a program. -/
def emit (post : Postprocessor) (hooks : List (Hook ℚ)) : Program :=
  hooks.foldl post.call (.new post.format)

end Postprocessor

/-! ## The dialect of the machine -/

namespace GrblHal

/-- A comment that may be left out. -/
def optionalComment (p : Program) (text : Option (List Char)) : Program :=
  match text with
  | some text => p.comment text
  | none => p

/-- The comment every program begins with. -/
def banner : List Char := "generated by eitri — grblHAL dialect".toList

/-- How a program begins: what made it, and the modes it is in. -/
def startCode (p : Program) (job : JobContext) : Program :=
  (optionalComment (optionalComment (p.comment banner) job.name) job.tool).push
    (['G', '9', '0', ' '] ++ OutputFormat.default.unitsWord
      ++ [' ', 'G', '5', '4', ' ', 'G', '1', '7', ' ', 'G', '9', '4'])

/-- How a program ends. -/
def endCode (p : Program) (_ : JobContext) : Program := (p.push ['M', '5']).push ['M', '2']

/-- The dialect. -/
def post : Postprocessor := ⟨.default, startCode, endCode⟩

end GrblHal

end Galdr.Eitri
