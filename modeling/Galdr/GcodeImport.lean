import Galdr.FloatText
import Galdr.Gcode

/-!
# Reading a program back

The CAM side reads a program back to show it: a lexer of its own takes every line apart, and
a walk over the lines carries a small modal state, the distance mode, the units, and the
motion, and turns what each line commands into straight moves. An arc becomes chords.
-/

namespace Galdr.Import

/-! ## The lexer -/

section Lexer

variable {K : Type} [Field K]

/-- What is wrong with a line. -/
inductive LexError
  /-- A character that is not in the grammar, and its line. -/
  | unexpected (c : Char) (src : List Char)
  /-- A letter, and what follows it in place of a number. -/
  | malformed (letter : Char) (num : List Char)
  deriving DecidableEq, Repr

/-- A line in words. -/
structure GcodeLine (K : Type) where
  /-- The words. -/
  words : List (Word K)
  /-- The comments. -/
  comments : List (List Char)
  /-- The line may be skipped. -/
  blockDelete : Bool

namespace GcodeLine

/-- A line without a word. -/
def empty : GcodeLine K := ⟨[], [], false⟩

omit [Field K] in
/-- The value of the first word of a letter. -/
def value (line : GcodeLine K) (letter : Char) : Option K :=
  (line.words.find? fun w => w.letter = letter).map Word.value

omit [Field K] in
/-- There is a word of a letter. -/
def has (line : GcodeLine K) (letter : Char) : Bool := line.words.any fun w => w.letter = letter

end GcodeLine

/-- `str::parse::<f64>`, of a number without an exponent. -/
def parseF64 (num : List Char) : Option K :=
  let (negative, digits) := Text.splitSign num
  (Text.parseDecimal digits).map fun m : NNRat => if negative then -(m : K) else (m : K)

omit [Field K] in
/-- A comment in parentheses, which goes to the end of the line if it is not closed. -/
def lexParenComment (rest : List Char) (line : GcodeLine K) : List Char × GcodeLine K :=
  ((rest.dropWhile (· != ')')).tail,
    { line with comments := line.comments ++ [Text.trim (rest.takeWhile (· != ')'))] })

/-- What a number is made of. -/
def inNumber (c : Char) : Bool := c.isDigit || c = '.'

/-- The characters of the number of a word, and what is behind them. -/
def splitNumber (rest : List Char) : List Char × List Char :=
  match rest with
  | [] => ([], [])
  | c :: tail =>
    if c = '+' || c = '-' then (c :: tail.takeWhile inNumber, tail.dropWhile inNumber)
    else (rest.takeWhile inNumber, rest.dropWhile inNumber)

/-- A word: the number behind a letter, and the rest of the line. -/
def lexWord (letter : Char) (rest : List Char) (line : GcodeLine K) :
    Except LexError (List Char × GcodeLine K) :=
  let letter := letter.toUpper
  let (num, rest) := splitNumber (rest.dropWhile Text.isWhitespace)
  match parseF64 num with
  | none => .error (.malformed letter num)
  | some value => .ok (rest, { line with words := line.words ++ [⟨letter, value⟩] })

/-- The rest of a line, with a bound on the number of its tokens. -/
def lexFrom (src : List Char) : ℕ → List Char → GcodeLine K → Except LexError (GcodeLine K)
  | 0, _, line => .ok line
  | _ + 1, [], line => .ok line
  | fuel + 1, c :: rest, line =>
    if Text.isWhitespace c then lexFrom src fuel rest line
    else if c = '%' then lexFrom src fuel rest line
    else if c = '(' then
      let (rest, line) := lexParenComment rest line
      lexFrom src fuel rest line
    else if c = ';' then .ok { line with comments := line.comments ++ [Text.trim rest] }
    else if c.isAlpha then
      match lexWord c rest line with
      | .error e => .error e
      | .ok (rest, line) => lexFrom src fuel rest line
    else .error (.unexpected c src)

/-- A line, of which a slash at its head makes one that may be skipped. -/
def lexLine (src : List Char) : Except LexError (GcodeLine K) :=
  let chars := src.dropWhile Text.isWhitespace
  match chars with
  | '/' :: rest => lexFrom src rest.length rest { GcodeLine.empty with blockDelete := true }
  | _ => lexFrom src chars.length chars .empty

/-- The lines that are not blank. -/
def lexLines : List (List Char) → Except LexError (List (GcodeLine K))
  | [] => .ok []
  | raw :: rest =>
    match lexLine raw with
    | .error e => .error e
    | .ok line =>
      match lexLines rest with
      | .error e => .error e
      | .ok lines =>
        if line.words ≠ [] ∨ line.comments ≠ [] ∨ line.blockDelete = true then .ok (line :: lines)
        else .ok lines

/-- A program, a line for every line feed and one behind the last. -/
def lex (src : List Char) : Except LexError (List (GcodeLine K)) := lexLines (src.splitOn '\n')

end Lexer

/-! ## The walk -/

section Walk

variable {K : Type} [Field K] [LinearOrder K] [FloorRing K] [Libm K]

/-- A point of the machine, in millimetres. -/
structure Point3 (K : Type) where
  /-- X. -/
  x : K
  /-- Y. -/
  y : K
  /-- Z. -/
  z : K
  deriving DecidableEq

/-- A rapid, or a cut. -/
inductive MotionKind
  | rapid
  | cut
  deriving DecidableEq, Repr

/-- A straight move. -/
structure PreviewMove (K : Type) where
  /-- A rapid, or a cut. -/
  kind : MotionKind
  /-- Where it begins. -/
  start : Point3 K
  /-- Where it ends. -/
  target : Point3 K
  deriving DecidableEq

/-- What the import could not follow. -/
structure Skipped where
  /-- The construct. -/
  construct : String
  /-- What became of it. -/
  handling : String
  deriving DecidableEq, Repr

/-- The moves of a program, in their order. -/
structure GcodePreview (K : Type) where
  /-- The moves. -/
  moves : List (PreviewMove K)
  /-- What could not be followed. -/
  skipped : List Skipped

/-- The modal state of the walk. -/
structure Modal (K : Type) where
  /-- The position. -/
  pos : Point3 K
  /-- Distances are absolute. -/
  absolute : Bool
  /-- Millimetres of a unit. -/
  unitsScale : K
  /-- The motion, once a line has named one. -/
  motion : Option MotionMode

/-- `MM_PER_INCH`. -/
def mmPerInch : K := 254 / 10

/-- `GEOM_EPSILON_MM`. -/
def geomEpsilonMm : K := 1 / 1000000

/-- `CHORD_TOLERANCE_MM`. -/
def chordToleranceMm : K := 5 / 1000

/-- `f64::EPSILON`. -/
def f64Epsilon : K := 1 / 4503599627370496

/-- `std::f64::consts::TAU`. -/
def tau : K := 2 * Libm.pi

/-- `f64::hypot`. -/
def hypot (x y : K) : K := sqrtf (x * x + y * y)

/-- `f64::rem_euclid`, of a positive divisor. -/
def remEuclid (x y : K) : K := x - y * ⌊x / y⌋

/-- The state at the first line. -/
def Modal.start : Modal K := ⟨⟨0, 0, 0⟩, true, 1, none⟩

/-- Two points of a plane are within the tolerance. -/
def coincident (a b : K × K) : Bool :=
  decide (|a.1 - b.1| < geomEpsilonMm) && decide (|a.2 - b.2| < geomEpsilonMm)

/-- A `G` word; a code is rounded to a whole one. -/
def Modal.applyG (modal : Modal K) (value : K) : Modal K :=
  let code := roundf value
  if code = 0 then { modal with motion := some .rapid }
  else if code = 1 then { modal with motion := some .linear }
  else if code = 2 then { modal with motion := some .arcCw }
  else if code = 3 then { modal with motion := some .arcCcw }
  else if code = 90 then { modal with absolute := true }
  else if code = 91 then { modal with absolute := false }
  else if code = 20 then { modal with unitsScale := mmPerInch }
  else if code = 21 then { modal with unitsScale := 1 }
  else modal

/-- The `G` words of a line. -/
def Modal.applyLine (modal : Modal K) (line : GcodeLine K) : Modal K :=
  (line.words.filter fun w => w.letter = 'G').foldl (fun modal w => modal.applyG w.value) modal

/-- A line names a plane that is not the one of X and Y. -/
def outOfPlane (line : GcodeLine K) : Bool :=
  line.words.any fun w => w.letter = 'G' && (roundf w.value = 18 || roundf w.value = 19)

/-- Where an axis goes: an absent word leaves it. -/
def resolve (word : Option K) (current : K) (absolute : Bool) (scale : K) : K :=
  match word with
  | none => current
  | some v => if absolute then v * scale else current + v * scale

/-- The centre on the side of the chord that the radius asks for. -/
def centreFromRadius (start target : Point3 K) (r : K) (ccw : Bool) : Option (K × K) :=
  let dx := target.x - start.x
  let dy := target.y - start.y
  let chord := hypot dx dy
  if chord < geomEpsilonMm then none
  else
    let half := chord / 2
    let hSq := r * r - half * half
    if hSq < 0 then none
    else
      let h := sqrtf hSq
      let mx := (start.x + target.x) / 2
      let my := (start.y + target.y) / 2
      let nx := -dy / chord
      let ny := dx / chord
      let sign := if decide (r < 0) = ccw then 1 else -1
      some (mx + sign * h * nx, my + sign * h * ny)

/-- The centre of an arc, from its offsets or else from its radius. -/
def arcCentre (line : GcodeLine K) (start target : Point3 K) (ccw : Bool) (scale : K) :
    Option (K × K) :=
  if line.has 'I' || line.has 'J' then
    let i := (line.value 'I').getD 0 * scale
    let j := (line.value 'J').getD 0 * scale
    some (start.x + i, start.y + j)
  else
    match line.value 'R' with
    | none => none
    | some r => centreFromRadius start target (r * scale) ccw

/-- The signed angle from the start to the end, a whole turn when they are one. -/
def arcSweep (startAngle endAngle : K) (ccw full : Bool) : K :=
  if full then if ccw then tau else -tau
  else
    let ccwAmount := remEuclid (endAngle - startAngle) tau
    if ccw then if ccwAmount ≤ f64Epsilon then tau else ccwAmount
    else if ccwAmount ≤ f64Epsilon then -tau
    else ccwAmount - tau

/-- The number of chords of an arc: enough for the tolerance, and from 8 to 512. -/
def arcSegmentCount (radius sweepAbs : K) : ℕ :=
  if radius ≤ 0 ∨ sweepAbs ≤ 0 then 8
  else
    let tol := min chordToleranceMm (radius * (1 / 2))
    let maxStep := 2 * Libm.acosf (max (-1) (min (1 - tol / radius) 1))
    if maxStep ≤ f64Epsilon then 512
    else max 8 (min ⌈sweepAbs / maxStep⌉.toNat 512)

/-- The points of an arc behind its start. -/
def flattenArc (cx cy r startAngle sweep : K) : List (K × K) :=
  if r ≤ 0 ∨ |sweep| ≤ f64Epsilon then
    let a := startAngle + sweep
    [(cx + r * cosf a, cy + r * sinf a)]
  else
    let n := arcSegmentCount r |sweep|
    (List.range n).map fun i =>
      let a := startAngle + sweep * ((i + 1 : ℕ) : K) / (n : K)
      (cx + r * cosf a, cy + r * sinf a)

/-- The chords from a point through the points of an arc, with their share of the way in Z. -/
def chords (z0 dz : K) (n : ℕ) : ℕ → Point3 K → List (K × K) → List (PreviewMove K)
  | _, _, [] => []
  | k, prev, p :: rest =>
    let t := ((k + 1 : ℕ) : K) / (n : K)
    let stop : Point3 K := ⟨p.1, p.2, z0 + dz * t⟩
    ⟨.cut, prev, stop⟩ :: chords z0 dz n (k + 1) stop rest

/-- The moves of an arc, and what could not be followed of it. -/
def emitArc (line : GcodeLine K) (start target : Point3 K) (ccw outOfPlane : Bool) (scale : K) :
    GcodePreview K :=
  if outOfPlane then
    ⟨[⟨.cut, start, target⟩],
      [⟨"G2/G3 arc outside the G17 XY plane", "approximated as a straight cut"⟩]⟩
  else
    match arcCentre line start target ccw scale with
    | none =>
      ⟨[⟨.cut, start, target⟩],
        [⟨"G2/G3 arc without I/J or R centre", "approximated as a straight cut"⟩]⟩
    | some (cx, cy) =>
      let r := hypot (start.x - cx) (start.y - cy)
      let startAngle := atan2f (start.y - cy) (start.x - cx)
      let endAngle := atan2f (target.y - cy) (target.x - cx)
      let full := coincident (start.x, start.y) (target.x, target.y)
      let sweep := arcSweep startAngle endAngle ccw full
      let pts := flattenArc cx cy r startAngle sweep
      ⟨chords start.z (target.z - start.z) pts.length 0 start pts, []⟩

/-- The moves that a line commands. -/
def walkMotion (line : GcodeLine K) (modal : Modal K) (outOfPlane : Bool) :
    GcodePreview K × Modal K :=
  let hasAxis := line.has 'X' || line.has 'Y' || line.has 'Z'
  let isArc := modal.motion = some .arcCw ∨ modal.motion = some .arcCcw
  let hasCenter := line.has 'I' || line.has 'J' || line.has 'R'
  match modal.motion with
  | none => (⟨[], []⟩, modal)
  | some motion =>
    if ¬(hasAxis = true ∨ isArc ∧ hasCenter = true) then (⟨[], []⟩, modal)
    else
      let s := modal.unitsScale
      let target : Point3 K :=
        { x := resolve (line.value 'X') modal.pos.x modal.absolute s
          y := resolve (line.value 'Y') modal.pos.y modal.absolute s
          z := resolve (line.value 'Z') modal.pos.z modal.absolute s }
      let preview := match motion with
        | .rapid => ⟨[⟨.rapid, modal.pos, target⟩], []⟩
        | .linear => ⟨[⟨.cut, modal.pos, target⟩], []⟩
        | .arcCw => emitArc line modal.pos target false outOfPlane s
        | .arcCcw => emitArc line modal.pos target true outOfPlane s
      (preview, { modal with pos := target })

/-- One line of the walk. -/
def walkLine (modal : Modal K) (line : GcodeLine K) : GcodePreview K × Modal K :=
  walkMotion line (modal.applyLine line) (outOfPlane line)

/-- The moves of all lines. -/
def walk : Modal K → List (GcodeLine K) → GcodePreview K
  | _, [] => ⟨[], []⟩
  | modal, line :: rest =>
    let (preview, modal) := walkLine modal line
    let more := walk modal rest
    ⟨preview.moves ++ more.moves, preview.skipped ++ more.skipped⟩

/-- Read a program back. -/
def importGcode (src : List Char) : Except LexError (GcodePreview K) :=
  match lex src with
  | .error e => .error e
  | .ok lines => .ok (walk .start lines)

end Walk

end Galdr.Import
