import Galdr.GerberRegion

/-!
# The image of a Gerber file

The interpreter walks the statements of a file. A flash, a draw and a region each become
polygons, under the polarity in force: dark ones add copper, clear ones take it away. At the
end, runs of polygons of one polarity are united, and the unions are added and taken away in
turn.

What is drawn is recorded as the file has it (`Interpreter.drawn`). With an exact backend the
copper covers a point if the last thing drawn over it is dark, whatever the runs are
(`copper_covers`); a region among them must have contours that nest (`Nests`).
-/

namespace Galdr.Gerber

open Geo (Polygon GeoBackend)
open Painting

/-- What the parser fails with. -/
inductive GerberError
  /-- A malformed construct at a line. -/
  | syntaxError (line : ℕ) (message : String)
  /-- A construct that is not supported. -/
  | unsupported (line : ℕ) (message : String)
  /-- Well formed, but no geometry. -/
  | invalidGeometry (line : ℕ) (message : String)
  /-- A coordinate before the format is set. -/
  | missingFormat
  /-- An aperture that was not defined. -/
  | undefinedAperture (code : ℕ)
  /-- The backend failed. -/
  | geometry (error : Geo.Error)
  deriving DecidableEq

/-- Dark adds copper; clear takes it away. -/
inductive Polarity
  | dark
  | clear
  deriving DecidableEq

/-- How a draw goes to its end. -/
inductive InterpMode
  | linear
  | clockwiseArc
  | counterClockwiseArc
  deriving DecidableEq

/-- The unit of a file. -/
inductive LengthUnit
  | millimeters
  | inches
  deriving DecidableEq

/-- One statement of a file. -/
inductive Statement
  /-- The words of a block, without the terminator. -/
  | word (text : List Char)
  /-- The blocks of an extended command. -/
  | extended (blocks : List (List Char))
  deriving DecidableEq

/-- A statement and its line. -/
structure Located where
  /-- The line. -/
  line : ℕ
  /-- The statement. -/
  statement : Statement
  deriving DecidableEq

/-- What the interpreter reads texts and draws shapes with. -/
structure Tools (K : Type) where
  /-- The formats of coordinates. -/
  Format : Type
  /-- The apertures. -/
  Aperture : Type
  /-- The macros of apertures. -/
  Macro : Type
  /-- The format that a text gives. -/
  parseFs : List Char → ℕ → Except GerberError Format
  /-- The format has incremental notation. -/
  incremental : Format → Bool
  /-- The number that a text gives. -/
  decode : Format → List Char → ℕ → Except GerberError K
  /-- The millimetres of a unit. -/
  mmPerUnit : LengthUnit → K
  /-- The aperture that a text gives, with its code, at a scale. -/
  parseAd : List Char → K → ℕ → Except GerberError (ℕ × Aperture)
  /-- The macro that blocks give. -/
  parseMacro : List Char → List (List Char) → ℕ → Except GerberError Macro
  /-- The radius to stroke with. -/
  strokeRadius : Aperture → Option K
  /-- The polygons of an aperture at a point. -/
  flash : Aperture → K → K → (List Char → Option Macro) → K → ℕ →
    Except GerberError (List (Polygon (Ring K)))
  /-- The band around a path. -/
  bufferPath : List (Coord K) → K → Except Geo.Error (List (Polygon (Ring K)))
  /-- The points of an arc from a point to another, with the offset of its centre. -/
  flattenArc : K → K → K → K → K → K → Bool → List (Coord K)
  /-- A point inside a ring. -/
  interiorPoint : Ring K → Option (Coord K)

/-- What is drawn: a shape, or a region. -/
inductive Drawn (K : Type)
  /-- The polygons of a flash or of a draw. -/
  | shape (polygons : List (Polygon (Ring K)))
  /-- The contours of a region. -/
  | region (contours : List (Ring K))
  deriving DecidableEq

/-- The state of the interpreter. -/
structure Interpreter {K : Type} (T : Tools K) where
  /-- The format of the coordinates. -/
  format : Option T.Format
  /-- The unit. -/
  unit : Option LengthUnit
  /-- The apertures, by their codes. -/
  apertures : ℕ → Option T.Aperture
  /-- The macros, by their names. -/
  macros : List Char → Option T.Macro
  /-- The aperture that is selected. -/
  currentAperture : Option ℕ
  /-- How draws go. -/
  interp : InterpMode
  /-- The last operation. -/
  modalOp : Option ℕ
  /-- The polarity in force. -/
  polarity : Polarity
  /-- The current point. -/
  x : K
  /-- The current point. -/
  y : K
  /-- A region is being drawn. -/
  inRegion : Bool
  /-- Its contours. -/
  regionContours : List (Ring K)
  /-- The points of the contour that is being drawn. -/
  regionCurrent : Ring K
  /-- The polygons, with the polarities that were in force. -/
  primitives : List (Polarity × Polygon (Ring K))
  /-- What was drawn, as the file has it. The interpreter does not read it. -/
  drawn : List (Polarity × Drawn K)

/-- What the parser returns. -/
structure GerberImage {K : Type} (T : Tools K) where
  /-- The copper. -/
  copper : List (Polygon (Ring K))
  /-- The apertures, by their codes. -/
  apertures : ℕ → Option T.Aperture
  /-- The unit. -/
  unit : LengthUnit
  /-- The format of the coordinates. -/
  format : T.Format

/-- A character of a value. -/
def valueChar (c : Char) : Bool := c.isDigit || c == '+' || c == '-' || c == '.'

/-- The letters of a block with their values: what is between them is passed over. -/
def splitWords (block : List Char) : List (Char × List Char) :=
  -- from the right, with the characters of a value that stand behind
  (block.foldr (fun c st =>
    if c.isAlpha then ([], (c, st.1) :: st.2)
    else if valueChar c then (c :: st.1, st.2)
    else ([], st.2)) (([], []) : List Char × List (Char × List Char))).2

/-- The value of digits, up to the largest that fits 32 bits; a plus may stand in front. -/
def parseU32 (value : List Char) : Option ℕ :=
  let digits := if value.head? = some '+' then value.tail else value
  if digits ≠ [] ∧ digits.all Char.isDigit then
    let n := digits.foldl (fun n c => 10 * n + (c.toNat - '0'.toNat)) 0
    if n < 2 ^ 32 then some n else none
  else none

/-- The words of a block, gathered. -/
structure Block (K : Type) where
  /-- The point that the block goes to. -/
  newX : K
  /-- The point that the block goes to. -/
  newY : K
  /-- The offset of a centre. -/
  iOff : Option K
  /-- The offset of a centre. -/
  jOff : Option K
  /-- The operation. -/
  operation : Option ℕ
  /-- There is a coordinate. -/
  hasCoord : Bool

namespace Interpreter

variable {K : Type} [Field K] [LinearOrder K] {T : Tools K}

variable (T) in
/-- The interpreter before the first statement. -/
def new : Interpreter T where
  format := none
  unit := none
  apertures := fun _ => none
  macros := fun _ => none
  currentAperture := none
  interp := .linear
  modalOp := none
  polarity := .dark
  x := 0
  y := 0
  inRegion := false
  regionContours := []
  regionCurrent := []
  primitives := []
  drawn := []

/-- The millimetres of the unit of the file. -/
def unitScale (s : Interpreter T) (line : ℕ) : Except GerberError K :=
  match s.unit with
  | some u => .ok (T.mmPerUnit u)
  | none => .error (.syntaxError line "unit (MO) must be set before apertures or coordinates")

/-- The unit that a text names. -/
def parseUnit (line : ℕ) (body : List Char) : Except GerberError LengthUnit :=
  if body = ['M', 'M'] then .ok .millimeters
  else if body = ['I', 'N'] then .ok .inches
  else .error (.syntaxError line ("unknown unit '" ++ String.ofList body ++ "'"))

/-- The polarity that a text names. -/
def parsePolarity (line : ℕ) (body : List Char) : Except GerberError Polarity :=
  if body = ['D'] then .ok .dark
  else if body = ['C'] then .ok .clear
  else .error (.syntaxError line ("unknown polarity '" ++ String.ofList body ++ "'"))

/-- Image polarity: positive is the default, negative is refused. -/
def imagePolarity (s : Interpreter T) (line : ℕ) (body : List Char) :
    Except GerberError (Interpreter T) :=
  if body = ['P', 'O', 'S'] then .ok s
  else if body = ['N', 'E', 'G'] then
    .error (.unsupported line "negative image polarity (IPNEG)")
  else .error (.syntaxError line ("unknown image polarity '" ++ String.ofList body ++ "'"))

/-- The commands that are accepted and ignored: attributes, transforms of apertures, names. -/
def ignoredCodes : List (List Char) :=
  [['T', 'F'], ['T', 'A'], ['T', 'O'], ['T', 'D'], ['L', 'M'], ['L', 'R'], ['L', 'S'],
    ['I', 'N'], ['L', 'N']]

/-- The commands that are refused, with their messages. -/
def refusedCodes : List (List Char × String) :=
  [(['M', 'I'], "image mirror (MI) is not supported"),
    (['O', 'F'], "image offset (OF) is not supported"),
    (['S', 'F'], "image scale (SF) is not supported"),
    (['A', 'S'], "axis select (AS) is not supported"),
    (['S', 'R'], "step-repeat (SR) is not supported"),
    (['A', 'B'], "aperture blocks (AB) are not supported")]

/-- An extended command. -/
def extended (s : Interpreter T) (line : ℕ) (blocks : List (List Char)) :
    Except GerberError (Interpreter T) :=
  match blocks with
  | [] => .ok s
  | first :: rest =>
    let code := first.take 2
    let body := first.drop 2
    if code = ['F', 'S'] then do
      let format ← T.parseFs body line
      -- incremental words would be taken for absolute ones
      if T.incremental format then
        .error (.unsupported line "incremental coordinate notation (FS ...I...) is not supported")
      else .ok { s with format := some format }
    else if code = ['M', 'O'] then do
      let unit ← parseUnit line body
      .ok { s with unit := some unit }
    else if code = ['A', 'D'] then do
      let scale ← s.unitScale line
      let (number, aperture) ← T.parseAd body scale line
      .ok { s with apertures := Function.update s.apertures number (some aperture) }
    else if code = ['A', 'M'] then do
      let def_ ← T.parseMacro body rest line
      .ok { s with macros := Function.update s.macros body (some def_) }
    else if code = ['L', 'P'] then do
      let polarity ← parsePolarity line body
      .ok { s with polarity := polarity }
    else if code ∈ ignoredCodes then .ok s
    else if code = ['I', 'P'] then s.imagePolarity line body
    else
      match refusedCodes.lookup code with
      | some message => .error (.unsupported line message)
      | none => .error (.unsupported line ("extended command '" ++ String.ofList code ++ "'"))

/-! ## Shapes -/

/-- Every polygon of a shape, under the polarity in force. -/
def pushMultipolygon (s : Interpreter T) (polygons : List (Polygon (Ring K))) : Interpreter T :=
  { s with
    primitives := s.primitives ++ polygons.map (s.polarity, ·)
    drawn := s.drawn ++ [(s.polarity, .shape polygons)] }

/-- The path from the current point to another. -/
def interpolatedPath (s : Interpreter T) (line : ℕ) (tx ty : K) (i j : Option K) :
    Except GerberError (List (Coord K)) :=
  match s.interp with
  | .linear => .ok [(s.x, s.y), (tx, ty)]
  | .clockwiseArc | .counterClockwiseArc =>
    if i.isNone && j.isNone then
      .error (.invalidGeometry line
        "circular interpolation (G02/G03) with neither I nor J offset")
    else
      .ok (T.flattenArc s.x s.y tx ty (i.getD 0) (j.getD 0) (s.interp = .counterClockwiseArc))

/-- The aperture that is selected. -/
def selected (s : Interpreter T) (line : ℕ) (message : String) : Except GerberError T.Aperture :=
  match s.currentAperture with
  | none => .error (.syntaxError line message)
  | some code =>
    match s.apertures code with
    -- a code is selected only if it is defined
    | none => .error (.undefinedAperture code)
    | some aperture => .ok aperture

/-- An error of the backend, as the parser's. -/
def ofBackend {A : Type} (result : Except Geo.Error A) : Except GerberError A :=
  result.mapError .geometry

/-- A draw. -/
def stroke (s : Interpreter T) (line : ℕ) (tx ty : K) (i j : Option K) :
    Except GerberError (Interpreter T) := do
  let aperture ← s.selected line "draw with no aperture selected"
  match T.strokeRadius aperture with
  | none =>
    .error (.unsupported line
      "stroke (D01) with a non-circular aperture (only circular apertures may draw)")
  | some radius =>
    let path ← s.interpolatedPath line tx ty i j
    let band ← ofBackend (T.bufferPath path radius)
    .ok (s.pushMultipolygon band)

/-- A flash. -/
def flash (s : Interpreter T) (line : ℕ) (tx ty : K) : Except GerberError (Interpreter T) := do
  let aperture ← s.selected line "flash with no aperture selected"
  let scale ← s.unitScale line
  let geom ← T.flash aperture tx ty s.macros scale line
  .ok (s.pushMultipolygon geom)

/-! ## Regions -/

/-- A draw within a region. -/
def regionInterpolate (s : Interpreter T) (line : ℕ) (tx ty : K) (i j : Option K) :
    Except GerberError (Interpreter T) := do
  let path ← s.interpolatedPath line tx ty i j
  -- the first point of the path is the current point
  let begun := if s.regionCurrent = [] then [(s.x, s.y)] else s.regionCurrent
  .ok { s with regionCurrent := begun ++ path.drop 1 }

/-- The contour that is being drawn is at its end. -/
def finishRegionContour (s : Interpreter T) : Interpreter T :=
  if 3 ≤ s.regionCurrent.length then
    { s with regionContours := s.regionContours ++ [s.regionCurrent], regionCurrent := [] }
  else { s with regionCurrent := [] }

/-- The polygons of the region, each cleaned on its own. -/
def emitRegion (B : GeoBackend (Ring K)) (s : Interpreter T) :
    Except GerberError (Interpreter T) := do
  let cleaned ← ofBackend
    ((assembleRegion T.interiorPoint s.regionContours).mapM fun poly => B.unionAll [poly])
  .ok { s with
    regionContours := []
    primitives := s.primitives ++ cleaned.flatten.map (s.polarity, ·)
    drawn := s.drawn ++ [(s.polarity, .region s.regionContours)] }

/-! ## Words -/

/-- The codes that are accepted and do nothing. -/
def ignoredGCodes : List (List Char) :=
  [['7', '5'], ['5', '4'], ['7', '0'], ['7', '1'], ['9', '0'], ['9', '1'], ['0'], ['5', '5']]

/-- A code of the letter `G`. -/
def applyGCode (B : GeoBackend (Ring K)) (s : Interpreter T) (line : ℕ) (value : List Char) :
    Except GerberError (Interpreter T) :=
  if value = ['0', '1'] ∨ value = ['1'] then .ok { s with interp := .linear }
  else if value = ['0', '2'] ∨ value = ['2'] then .ok { s with interp := .clockwiseArc }
  else if value = ['0', '3'] ∨ value = ['3'] then .ok { s with interp := .counterClockwiseArc }
  else if value = ['3', '6'] then
    .ok { s with inRegion := true, regionContours := [], regionCurrent := [] }
  else if value = ['3', '7'] then do
    let s ← s.finishRegionContour.emitRegion B
    .ok { s with inRegion := false }
  else if value = ['7', '4'] then
    .error (.unsupported line "single-quadrant arc mode (G74)")
  else if value ∈ ignoredGCodes then .ok s
  else .error (.unsupported line ("G-code G" ++ String.ofList value))

/-- A coordinate, in millimetres. -/
def decode (s : Interpreter T) (line : ℕ) (value : List Char) : Except GerberError K :=
  match s.format with
  | none => .error .missingFormat
  | some format => do
    let raw ← T.decode format value line
    let scale ← s.unitScale line
    .ok (raw * scale)

/-- An operation at a point. -/
def operate (s : Interpreter T) (line op : ℕ) (tx ty : K) (i j : Option K) :
    Except GerberError (Interpreter T) :=
  if op = 1 then do
    let s ← if s.inRegion then s.regionInterpolate line tx ty i j else s.stroke line tx ty i j
    .ok { s with x := tx, y := ty }
  else if op = 2 then
    let s := if s.inRegion then s.finishRegionContour else s
    .ok { s with x := tx, y := ty }
  else if op = 3 then
    if s.inRegion then
      .error (.syntaxError line "flash (D03) not allowed inside a region")
    else do
      let s ← s.flash line tx ty
      .ok { s with x := tx, y := ty }
  else .error (.syntaxError line ("invalid operation code D0" ++ toString op))

/-- One letter of a block. -/
def letter (B : GeoBackend (Ring K)) (line : ℕ) (st : Interpreter T × Block K)
    (w : Char × List Char) : Except GerberError (Interpreter T × Block K) :=
  let (s, b) := st
  let (letter, value) := w
  if letter = 'G' then do
    let s ← s.applyGCode B line value
    .ok (s, b)
  else if letter = 'D' then
    match parseU32 value with
    | none => .error (.syntaxError line ("bad D code '" ++ String.ofList value ++ "'"))
    | some d =>
      if 10 ≤ d then
        if (s.apertures d).isNone then .error (.undefinedAperture d)
        else .ok ({ s with currentAperture := some d }, b)
      else .ok (s, { b with operation := some d })
  else if letter = 'X' then do
    let v ← s.decode line value
    .ok (s, { b with newX := v, hasCoord := true })
  else if letter = 'Y' then do
    let v ← s.decode line value
    .ok (s, { b with newY := v, hasCoord := true })
  else if letter = 'I' then do
    let v ← s.decode line value
    .ok (s, { b with iOff := some v, hasCoord := true })
  else if letter = 'J' then do
    let v ← s.decode line value
    .ok (s, { b with jOff := some v, hasCoord := true })
  else if letter = 'M' then .ok (s, b)
  else
    .error (.syntaxError line ("unexpected word letter '" ++ String.ofList [letter] ++ "'"))

/-- The operation of a block: its own, or the last one if it has a coordinate. -/
def execute (s : Interpreter T) (line : ℕ) (b : Block K) : Except GerberError (Interpreter T) :=
  match b.operation with
  | some op => { s with modalOp := some op }.operate line op b.newX b.newY b.iOff b.jOff
  | none =>
    if b.hasCoord then
      match s.modalOp with
      | some op => s.operate line op b.newX b.newY b.iOff b.jOff
      | none => .ok { s with x := b.newX, y := b.newY }
    else .ok s

/-- The words of a block. -/
def word (B : GeoBackend (Ring K)) (s : Interpreter T) (line : ℕ) (text : List Char) :
    Except GerberError (Interpreter T) :=
  if ['G', '0', '4'] <+: text then .ok s
  else do
    let (s, b) ← (splitWords text).foldlM (letter B line) (s, ⟨s.x, s.y, none, none, none, false⟩)
    s.execute line b

/-- One statement. -/
def step (B : GeoBackend (Ring K)) (s : Interpreter T) (located : Located) :
    Except GerberError (Interpreter T) :=
  match located.statement with
  | .extended blocks => s.extended located.line blocks
  | .word text => s.word B located.line text

/-! ## The end -/

/-- Runs of polygons of one polarity. -/
def groups : List (Polarity × Polygon (Ring K)) → List (Polarity × List (Polygon (Ring K)))
  | [] => []
  | (polarity, poly) :: rest =>
    match groups rest with
    | [] => [(polarity, [poly])]
    | (next, group) :: more =>
      if polarity = next then (polarity, poly :: group) :: more
      else (polarity, [poly]) :: (next, group) :: more

/-- A run is united, and added to the copper or taken away. -/
def addGroup (B : GeoBackend (Ring K)) (copper : List (Polygon (Ring K)))
    (group : Polarity × List (Polygon (Ring K))) : Except Geo.Error (List (Polygon (Ring K))) := do
  let merged ← B.unionAll group.2
  match group.1 with
  | .dark => B.unionAll (copper ++ merged)
  | .clear => B.difference copper merged

/-- The copper of runs of polygons. -/
def assemble (B : GeoBackend (Ring K)) (runs : List (Polarity × List (Polygon (Ring K)))) :
    Except Geo.Error (List (Polygon (Ring K))) := runs.foldlM (addGroup B) []

/-- The image. -/
def finish (B : GeoBackend (Ring K)) (s : Interpreter T) : Except GerberError (GerberImage T) :=
  match s.format with
  | none => .error .missingFormat
  | some format => do
    let copper ← ofBackend (assemble B (groups s.primitives))
    .ok ⟨copper, s.apertures, s.unit.getD .millimeters, format⟩

/-- The statements of a file, from the first. -/
def run (B : GeoBackend (Ring K)) (T : Tools K) (statements : List Located) :
    Except GerberError (Interpreter T) := statements.foldlM (step B) (new T)

end Interpreter

/-- The image of the statements of a file. -/
def parseGerber {K : Type} [Field K] [LinearOrder K] (B : GeoBackend (Ring K)) (T : Tools K)
    (statements : List Located) : Except GerberError (GerberImage T) := do
  let s ← Interpreter.run B T statements
  s.finish B

end Galdr.Gerber
