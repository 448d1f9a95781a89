import Mathlib
import Galdr.MacroExpressions

/-!
# Aperture macros

The body of an aperture macro is a list of statements: comments, assignments of variables, and
primitives whose parameters are expressions. The parser tells the statements apart by characters
that it looks for, and the statements are evaluated in turn when the macro is resolved.

The reference reads a statement by its first character, and an environment has what was assigned
last. The code follows it in a body if and only if it misreads none of its statements (`Misread`)
and the statements that are reached stay within the numbers of the machine (`faithful_iff`).
-/

namespace Galdr.Gerber.Macro

/-! ## The code -/

/-- One statement of a body. -/
inductive MacroLine
  /-- `$n=expr`. -/
  | assignment (index : ℕ) (expr : List Char)
  /-- A primitive with its parameters. -/
  | primitive (code : ℕ) (params : List (List Char)) (line : ℕ)
  deriving DecidableEq

/-- A macro. -/
structure MacroDef where
  /-- Its name. -/
  name : List Char
  /-- Its statements. -/
  body : List MacroLine

/-- The greatest code. -/
def u32Max : ℕ := 2 ^ 32 - 1

/-- What stands before the equals sign. -/
def target (block : List Char) : List Char := Text.trim (block.takeWhile (· ≠ '='))

/-- What stands after it. -/
def assigned (block : List Char) : List Char := Text.trim (block.dropWhile (· ≠ '=')).tail

/-- What stands before the first comma. -/
def firstField (block : List Char) : List Char := Text.trim (block.takeWhile (· ≠ ','))

/-- What stands between the commas behind it. -/
def otherFields (block : List Char) : List (List Char) := (block.splitOn ',').tail.map Text.trim

/-- The statement of a block. Blank blocks and comments have none. -/
def parseBlock (line : ℕ) (raw : List Char) : Except Stop (Option MacroLine) :=
  let block := Text.trim raw
  if block = [] then .ok none
  else if '=' ∈ block then
    match (Text.stripPrefix ['$'] (target block)).bind (Text.parseUnsigned usizeMax) with
    | some index => .ok (some (.assignment index (assigned block)))
    | none => .error (.syntaxError line (.malformedAssignment block))
  else
    match Text.parseUnsigned u32Max (firstField block) with
    | some code =>
      if code = 0 then .ok none else .ok (some (.primitive code (otherFields block) line))
    | none =>
      -- The text of a comment is fused onto its code.
      if (firstField block).head? = some '0' then .ok none
      else .error (.syntaxError line (.malformedPrimitive block))

/-- The macro of the blocks of a body. -/
def MacroDef.parse (name : List Char) (blocks : List (List Char)) (line : ℕ) :
    Except Stop MacroDef := do
  let body ← blocks.mapM (parseBlock line)
  return ⟨name, body.reduceOption⟩

section Evaluation

variable {V : Type} (A : Arithmetic V)

/-- The variables, extended to hold one of a number. A list of machine numbers has less than
`2 ^ 60` elements. -/
def resize (vars : List V) (index : ℕ) : Except Stop (List V) :=
  if index < 2 ^ 60 then .ok (vars ++ List.replicate (index - vars.length) A.zero)
  else .error .capacityOverflow

/-- A primitive that is called: its code, the values of its parameters, and its line. -/
abbrev Call (V : Type) : Type := ℕ × List V × ℕ

/-- A statement evaluated: the variables behind it, and the primitive that it calls. -/
def MacroLine.evaluate (vars : List V) : MacroLine → Except Stop (List V × Option (Call V))
  | .assignment index expr => do
    let value ← eval A expr vars 0
    let vars ← resize A vars index
    return (if 1 ≤ index then vars.set (index - 1) value else vars, none)
  | .primitive code params line => do
    let values ← params.mapM fun p => eval A p vars line
    return (vars, some (code, values, line))

end Evaluation

/-- What the shapes of primitives are made with. -/
structure Shapes (V G : Type) where
  /-- The number one. -/
  one : V
  /-- Half of a number. -/
  half : V → V
  /-- An exposure that is on. -/
  exposed : V → Bool
  /-- A number of points, within a machine word. -/
  toUsize : V → ℕ
  /-- A number of sides, within 32 bits. -/
  toU32 : V → ℕ
  /-- A circle about a point, of a radius. -/
  circlePolygon : V → V → V → G
  /-- The band about a segment, of a half width. -/
  bufferPath : V × V → V × V → V → Except Geo.Error G
  /-- A rectangle about a point, of a width and a height. -/
  rectanglePolygon : V → V → V → V → G
  /-- A polygon of points. -/
  polygon : List (V × V) → G
  /-- A regular polygon about a point, of a diameter, with sides, turned. -/
  regularPolygon : V → V → V → ℕ → V → G
  /-- A shape turned about the origin. -/
  rotate : G → V → G
  /-- Nothing. -/
  empty : G
  /-- The union of two shapes. -/
  union : G → G → Except Geo.Error G
  /-- A shape without another. -/
  difference : G → G → Except Geo.Error G

section Geometry

variable {V G : Type} (A : Arithmetic V) (S : Shapes V G)

/-- An operation of the backend. -/
def ofGeometry (result : Except Geo.Error G) : Except Stop G := result.mapError .geometry

/-- A ring without a cross. -/
def thermal (cx cy outerDia innerDia gap rotation : V) : Except Stop G := do
  let annulus ← ofGeometry (S.difference (S.circlePolygon cx cy (S.half outerDia))
    (S.circlePolygon cx cy (S.half innerDia)))
  let cross ← ofGeometry (S.union (S.rectanglePolygon cx cy outerDia gap)
    (S.rectanglePolygon cx cy gap outerDia))
  let relief ← ofGeometry (S.difference annulus cross)
  return S.rotate relief rotation

/-- The shape of a primitive, and whether it is added. The ring of an outline has less than
`2 ^ 59` points. -/
def buildPrimitive (code : ℕ) (p : List V) (line : ℕ) : Except Stop (Bool × G) :=
  let get := fun i => p.getD i A.zero
  let on := S.exposed (p.getD 0 S.one)
  match code with
  | 1 => .ok (on, S.rotate (S.circlePolygon (get 2) (get 3) (S.half (get 1))) (get 4))
  | 20 => do
    let band ← ofGeometry (S.bufferPath (get 2, get 3) (get 4, get 5) (S.half (get 1)))
    return (on, S.rotate band (get 6))
  | 21 => .ok (on, S.rotate (S.rectanglePolygon (get 3) (get 4) (get 1) (get 2)) (get 5))
  | 4 =>
    let n := S.toUsize (get 1)
    if n + 1 < 2 ^ 59 then
      let ring := (List.range (n + 1)).map fun v => (get (2 + v * 2), get (2 + v * 2 + 1))
      .ok (on, S.rotate (S.polygon ring) (get (2 + (n + 1) * 2)))
    else .error .capacityOverflow
  | 5 => .ok (on, S.regularPolygon (get 2) (get 3) (get 4) (S.toU32 (get 1)) (get 5))
  | 7 => do
    let relief ← thermal S (get 0) (get 1) (get 2) (get 3) (get 4) (get 5)
    return (true, relief)
  | other => .error (.unsupported line other)

/-- A shape with what a statement calls. -/
def compose (acc : G) : Option (Call V) → Except Stop G
  | none => .ok acc
  | some (code, values, line) => do
    let (on, geometry) ← buildPrimitive A S code values line
    ofGeometry (if on then S.union acc geometry else S.difference acc geometry)

/-- The statements in turn. -/
def resolveFrom : List V → G → List MacroLine → Except Stop G
  | _, acc, [] => .ok acc
  | vars, acc, entry :: body => do
    let (vars, call) ← entry.evaluate A vars
    resolveFrom vars (← compose A S acc call) body

/-- The shape of a macro with its arguments. -/
def MacroDef.resolve (m : MacroDef) (args : List V) : Except Stop G :=
  resolveFrom A S args S.empty m.body

end Geometry

/-! ## The reference -/

/-- A number as the format writes it. -/
def IsNumber (digits : List Char) : Prop := digits ≠ [] ∧ digits.all Char.isDigit = true

instance (digits : List Char) : Decidable (IsNumber digits) :=
  inferInstanceAs (Decidable (_ ∧ _))

/-- What it denotes. -/
def numberOf (digits : List Char) : ℕ := Nat.ofDigitChars 10 digits 0

namespace Reference

/-- The statement of a block, told by its first character: a comment starts with a zero, an
assignment with a dollar sign, and a primitive with its code. -/
def statement (line : ℕ) (raw : List Char) : Option (Option MacroLine) :=
  let block := Text.trim raw
  match block with
  | [] => some none
  | '0' :: _ => some none
  | '$' :: _ =>
    if '=' ∈ block ∧ IsNumber (target block).tail then
      some (some (.assignment (numberOf (target block).tail) (assigned block)))
    else none
  | _ =>
    if '=' ∉ block ∧ IsNumber (firstField block) then
      some (some (.primitive (numberOf (firstField block)) (otherFields block) line))
    else none

variable {V : Type} (A : Arithmetic V)

open Classical in
/-- The value of an expression in an environment: that of its tree. Other texts have none. -/
noncomputable def value (env : ℕ → V) (text : List Char) : Option V :=
  if h : ∃ t, Reading text t then h.choose.value A fun n => some (env n) else none

/-- The environment that the parameters give. -/
def given (args : List V) (n : ℕ) : V :=
  match n with
  | 0 => A.zero
  | n + 1 => args.getD n A.zero

/-- A statement evaluated: the environment behind it, and the primitive that it calls. -/
noncomputable def evaluate (env : ℕ → V) : MacroLine → Option ((ℕ → V) × Option (Call V))
  | .assignment n text => (value A env text).map fun v => (Function.update env n v, none)
  | .primitive code params line =>
    (params.mapM (value A env)).map fun values => (env, some (code, values, line))

theorem value_of_reading {env : ℕ → V} {text : List Char} {t : Tree} (h : Reading text t) :
    value A env text = t.value A fun n => some (env n) := by
  unfold value
  rw [dif_pos ⟨t, h⟩]
  congr 1
  exact (⟨t, h⟩ : ∃ t, Reading text t).choose_spec.unique h

end Reference

/-! ## What the code does otherwise -/

/-- The blocks that the code reads as something else. A comment has an equals sign, or a number
stands before its first comma; a number is too great for its type; or a plus sign stands before
it. -/
inductive Misread (block : List Char) : Prop
  | commentAssignment (h : block.head? = some '0') (heq : '=' ∈ block)
  | commentNumber (h : block.head? = some '0') (heq : '=' ∉ block)
      (hnumber : IsNumber (firstField block)) (hpos : 0 < numberOf (firstField block))
      (hfits : numberOf (firstField block) ≤ u32Max)
  | wideCode (h : block.head? ≠ some '0') (heq : '=' ∉ block)
      (hnumber : IsNumber (firstField block)) (hwide : u32Max < numberOf (firstField block))
  | signedCode (digits : List Char) (heq : '=' ∉ block) (hfield : firstField block = '+' :: digits)
      (hnumber : IsNumber digits) (hfits : numberOf digits ≤ u32Max)
  | wideVariable (digits : List Char) (heq : '=' ∈ block) (htarget : target block = '$' :: digits)
      (hnumber : IsNumber digits) (hwide : usizeMax < numberOf digits)
  | signedVariable (digits : List Char) (heq : '=' ∈ block)
      (htarget : target block = '$' :: '+' :: digits) (hnumber : IsNumber digits)
      (hfits : numberOf digits ≤ usizeMax)

/-- The code and the reference read the block as the same statement. -/
def SameStatement (line : ℕ) (raw : List Char) : Prop :=
  (parseBlock line raw).toOption = Reference.statement line raw

/-! ### Texts and their first characters -/

theorem parseUnsigned_number {digits : List Char} (h : IsNumber digits) (max : ℕ) :
    Text.parseUnsigned max digits
      = if numberOf digits ≤ max then some (numberOf digits) else none :=
  Text.parseUnsigned_digits (List.all_eq_true.1 h.2) h.1 max

theorem parseUnsigned_plus {digits : List Char} (h : IsNumber digits) (max : ℕ) :
    Text.parseUnsigned max ('+' :: digits)
      = if numberOf digits ≤ max then some (numberOf digits) else none := by
  simp only [Text.parseUnsigned, h.1, h.2, not_true_eq_false, or_self, if_false]
  rfl

theorem parseUnsigned_other {text : List Char} (h : ¬IsNumber text)
    (hplus : ∀ digits, text = '+' :: digits → ¬IsNumber digits) (max : ℕ) :
    Text.parseUnsigned max text = none := by
  unfold Text.parseUnsigned
  have hfail : ∀ digits, ¬IsNumber digits → (digits = [] ∨ ¬digits.all Char.isDigit) := by
    intro digits hdigits
    by_contra hnot
    rw [not_or, not_not] at hnot
    exact hdigits hnot
  split
  · rename_i digits
    exact if_pos (hfail _ (hplus digits rfl))
  · simp only [hfail _ h, if_true]

theorem head?_trim_cons {c : Char} (h : Text.isWhitespace c = false) (rest : List Char) :
    (Text.trim (c :: rest)).head? = some c := by
  unfold Text.trim
  rw [List.dropWhile_cons_of_neg (by simp [h])]
  obtain ⟨back, hback⟩ := List.rdropWhile_prefix Text.isWhitespace (l := c :: rest)
  cases hdrop : (c :: rest).rdropWhile Text.isWhitespace with
  | nil =>
    rw [List.rdropWhile_eq_nil_iff] at hdrop
    exact absurd (hdrop c (List.mem_cons_self ..)) (by simp [h])
  | cons d front =>
    rw [hdrop] at hback
    exact congrArg some (List.cons.inj hback).1

theorem isWhitespace_head_trim {raw rest : List Char} {c : Char} (h : Text.trim raw = c :: rest) :
    Text.isWhitespace c = false := by
  unfold Text.trim at h
  obtain ⟨back, hback⟩ := List.rdropWhile_prefix Text.isWhitespace
    (l := raw.dropWhile Text.isWhitespace)
  rw [h] at hback
  have hhead := List.head?_dropWhile_not Text.isWhitespace raw
  rw [← hback] at hhead
  simpa using hhead

theorem head?_trim_takeWhile {c d : Char} {rest : List Char} (h : Text.isWhitespace c = false)
    (hne : c ≠ d) : (Text.trim ((c :: rest).takeWhile (· ≠ d))).head? = some c := by
  rw [List.takeWhile_cons_of_pos (by simpa using hne)]
  exact head?_trim_cons h _

theorem trim_takeWhile_self (d : Char) (rest : List Char) :
    Text.trim ((d :: rest).takeWhile (· ≠ d)) = [] := by
  rw [List.takeWhile_cons_of_neg (by simp)]
  rfl

theorem not_isNumber_of_head {text : List Char} {c : Char} (h : text.head? = some c)
    (hc : c.isDigit = false) : ¬IsNumber text := by
  rintro ⟨-, hall⟩
  have hdigit := List.all_eq_true.1 hall c (List.mem_of_mem_head? h)
  exact Bool.false_ne_true (hc.symm.trans hdigit)

theorem ne_cons_of_head {text : List Char} {c d : Char} (h : text.head? = some c) (hne : c ≠ d)
    (rest : List Char) : text ≠ d :: rest := by
  rintro rfl
  exact hne (Option.some.inj h).symm

theorem stripPrefix_of_head {text : List Char} {c : Char} (h : text.head? = some c)
    (hne : c ≠ '$') : Text.stripPrefix ['$'] text = none := by
  cases text with
  | nil => cases h
  | cons d text =>
    obtain rfl : d = c := Option.some.inj h
    exact if_neg (Ne.symm hne)

/-- Digits that do not start with a zero denote a number other than zero. -/
theorem numberOf_pos {digits : List Char} (h : IsNumber digits) (hzero : digits.head? ≠ some '0') :
    0 < numberOf digits := by
  match digits, h with
  | c :: rest, ⟨_, hall⟩ =>
    have hdigit : c.isDigit = true := List.all_eq_true.1 hall c (List.mem_cons_self ..)
    have hc : 48 < c.toNat := by
      have hle : 48 ≤ c.toNat := by
        simp only [Char.isDigit, Bool.and_eq_true, decide_eq_true_eq] at hdigit
        exact hdigit.1
      refine lt_of_le_of_ne hle fun h48 => hzero ?_
      have : c = Char.ofNat 48 := by rw [h48, Char.ofNat_toNat]
      rw [this]
      rfl
    have hpos : 0 < 10 * 0 + (c.toNat - '0'.toNat) := by
      show 0 < 10 * 0 + (c.toNat - 48)
      omega
    unfold numberOf
    rw [Nat.ofDigitChars_cons, Nat.ofDigitChars_eq_ofDigitChars_zero]
    exact Nat.add_pos_left (Nat.mul_pos (Nat.pow_pos (by norm_num)) hpos) _

section Blocks

variable {line : ℕ} {raw rest : List Char} {c : Char}

theorem target_head (hblock : Text.trim raw = c :: rest) (heq : c ≠ '=') :
    (target (Text.trim raw)).head? = some c :=
  hblock ▸ head?_trim_takeWhile (isWhitespace_head_trim hblock) heq

theorem firstField_head (hblock : Text.trim raw = c :: rest) (hcomma : c ≠ ',') :
    (firstField (Text.trim raw)).head? = some c :=
  hblock ▸ head?_trim_takeWhile (isWhitespace_head_trim hblock) hcomma

theorem parseBlock_assignment (hne : Text.trim raw ≠ []) (heq : '=' ∈ Text.trim raw) :
    (parseBlock line raw).toOption
      = ((Text.stripPrefix ['$'] (target (Text.trim raw))).bind (Text.parseUnsigned usizeMax)).map
          fun index => some (.assignment index (assigned (Text.trim raw))) := by
  simp only [parseBlock, if_neg hne, if_pos heq]
  cases (Text.stripPrefix ['$'] (target (Text.trim raw))).bind (Text.parseUnsigned usizeMax) <;> rfl

theorem parseBlock_primitive (hne : Text.trim raw ≠ []) (heq : '=' ∉ Text.trim raw) {code : ℕ}
    (hcode : Text.parseUnsigned u32Max (firstField (Text.trim raw)) = some code) :
    (parseBlock line raw).toOption = some (if code = 0 then none else
      some (.primitive code (otherFields (Text.trim raw)) line)) := by
  simp only [parseBlock, if_neg hne, if_neg heq, hcode]
  split <;> rfl

theorem parseBlock_text (hne : Text.trim raw ≠ []) (heq : '=' ∉ Text.trim raw)
    (hcode : Text.parseUnsigned u32Max (firstField (Text.trim raw)) = none) :
    (parseBlock line raw).toOption
      = if (firstField (Text.trim raw)).head? = some '0' then some none else none := by
  simp only [parseBlock, if_neg hne, if_neg heq, hcode]
  split <;> rfl

theorem misread_of_assignment {block : List Char} (heq : '=' ∈ block) :
    Misread block ↔ block.head? = some '0' ∨ ∃ digits, IsNumber digits ∧
      (target block = '$' :: digits ∧ usizeMax < numberOf digits
        ∨ target block = '$' :: '+' :: digits ∧ numberOf digits ≤ usizeMax) := by
  constructor
  · rintro (⟨h, -⟩ | ⟨-, h⟩ | ⟨-, h⟩ | ⟨-, h⟩ | ⟨digits, -, htarget, hnumber, hwide⟩
      | ⟨digits, -, htarget, hnumber, hfits⟩)
    · exact .inl h
    · exact absurd heq h
    · exact absurd heq h
    · exact absurd heq h
    · exact .inr ⟨digits, hnumber, .inl ⟨htarget, hwide⟩⟩
    · exact .inr ⟨digits, hnumber, .inr ⟨htarget, hfits⟩⟩
  · rintro (h | ⟨digits, hnumber, ⟨htarget, hwide⟩ | ⟨htarget, hfits⟩⟩)
    · exact .commentAssignment h heq
    · exact .wideVariable digits heq htarget hnumber hwide
    · exact .signedVariable digits heq htarget hnumber hfits

theorem misread_of_primitive {block : List Char} (heq : '=' ∉ block) :
    Misread block ↔ IsNumber (firstField block)
          ∧ (block.head? = some '0' ∧ 0 < numberOf (firstField block)
              ∧ numberOf (firstField block) ≤ u32Max
            ∨ block.head? ≠ some '0' ∧ u32Max < numberOf (firstField block))
        ∨ ∃ digits, firstField block = '+' :: digits ∧ IsNumber digits
          ∧ numberOf digits ≤ u32Max := by
  constructor
  · rintro (⟨-, h⟩ | ⟨h, -, hnumber, hpos, hfits⟩ | ⟨h, -, hnumber, hwide⟩
      | ⟨digits, -, hfield, hnumber, hfits⟩ | ⟨-, h⟩ | ⟨-, h⟩)
    · exact absurd h heq
    · exact .inl ⟨hnumber, .inl ⟨h, hpos, hfits⟩⟩
    · exact .inl ⟨hnumber, .inr ⟨h, hwide⟩⟩
    · exact .inr ⟨digits, hfield, hnumber, hfits⟩
    · exact absurd h heq
    · exact absurd h heq
  · rintro (⟨hnumber, ⟨h, hpos, hfits⟩ | ⟨h, hwide⟩⟩ | ⟨digits, hfield, hnumber, hfits⟩)
    · exact .commentNumber h heq hnumber hpos hfits
    · exact .wideCode h heq hnumber hwide
    · exact .signedCode digits heq hfield hnumber hfits

/-- A block that starts with a zero. -/
theorem same_of_comment (hblock : Text.trim raw = '0' :: rest) :
    SameStatement line raw ↔ ¬Misread (Text.trim raw) := by
  have href : Reference.statement line raw = some none := by
    simp only [Reference.statement, hblock]
  have hne : Text.trim raw ≠ [] := by simp [hblock]
  have hhead : (Text.trim raw).head? = some '0' := by simp [hblock]
  unfold SameStatement
  rw [href]
  by_cases heq : '=' ∈ Text.trim raw
  · rw [parseBlock_assignment hne heq, stripPrefix_of_head (target_head hblock (by decide))
      (by decide), misread_of_assignment heq]
    simp [hhead]
  · have hfirst := firstField_head hblock (by decide)
    have hsigned : ∀ digits, firstField (Text.trim raw) ≠ '+' :: digits :=
      ne_cons_of_head hfirst (by decide)
    rw [misread_of_primitive heq]
    by_cases hnumber : IsNumber (firstField (Text.trim raw))
    · by_cases hfits : numberOf (firstField (Text.trim raw)) ≤ u32Max
      · rw [parseBlock_primitive hne heq ((parseUnsigned_number hnumber _).trans (if_pos hfits))]
        simp [hhead, hnumber, hfits, hsigned]
      · rw [parseBlock_text hne heq ((parseUnsigned_number hnumber _).trans (if_neg hfits)),
          if_pos hfirst]
        simp [hhead, hfits, hsigned]
    · rw [parseBlock_text hne heq (parseUnsigned_other hnumber
        (fun digits h => absurd h (hsigned digits)) _), if_pos hfirst]
      simp [hnumber, hsigned]

theorem ne_plus_of_isNumber {digits : List Char} (h : IsNumber digits) (rest : List Char) :
    digits ≠ '+' :: rest := by
  rintro rfl
  exact not_isNumber_of_head rfl (by decide) h

/-- A block that starts with a dollar sign. -/
theorem same_of_variable (hblock : Text.trim raw = '$' :: rest) :
    SameStatement line raw ↔ ¬Misread (Text.trim raw) := by
  have hne : Text.trim raw ≠ [] := by simp [hblock]
  have hhead : (Text.trim raw).head? = some '$' := by simp [hblock]
  unfold SameStatement
  by_cases heq : '=' ∈ Text.trim raw
  · have htarget := target_head hblock (by decide)
    obtain ⟨digits, hdigits⟩ : ∃ digits, target (Text.trim raw) = '$' :: digits := by
      cases htext : target (Text.trim raw) with
      | nil => simp [htext] at htarget
      | cons d digits =>
        rw [htext] at htarget
        exact ⟨digits, by rw [Option.some.inj htarget]⟩
    have href : Reference.statement line raw = if IsNumber digits then
        some (some (.assignment (numberOf digits) (assigned (Text.trim raw)))) else none := by
      simp only [Reference.statement]
      rw [hblock]
      simp only
      rw [← hblock]
      simp [heq, hdigits]
    have hstrip : Text.stripPrefix ['$'] (target (Text.trim raw)) = some digits := by
      rw [hdigits]
      rfl
    rw [parseBlock_assignment hne heq, href, misread_of_assignment heq, hstrip, Option.bind_some]
    by_cases hnumber : IsNumber digits
    · rw [parseUnsigned_number hnumber]
      by_cases hfits : numberOf digits ≤ usizeMax
      · refine iff_of_true (by simp [hnumber, hfits]) ?_
        simp only [hhead, hdigits, List.cons.injEq, true_and]
        rintro (h | ⟨digits', -, ⟨rfl, hwide⟩ | ⟨h, -⟩⟩)
        · exact absurd (Option.some.inj h) (by decide)
        · omega
        · exact ne_plus_of_isNumber hnumber _ h
      · refine iff_of_false (by simp [hnumber, hfits]) (not_not_intro (.inr ⟨digits, hnumber,
          .inl ⟨hdigits, by omega⟩⟩))
    · by_cases hplus : ∃ digits', digits = '+' :: digits' ∧ IsNumber digits'
      · obtain ⟨digits', rfl, hnumber'⟩ := hplus
        rw [parseUnsigned_plus hnumber']
        by_cases hfits : numberOf digits' ≤ usizeMax
        · refine iff_of_false (by simp [hnumber, hfits]) (not_not_intro (.inr ⟨digits', hnumber',
            .inr ⟨hdigits, hfits⟩⟩))
        · refine iff_of_true (by simp [hnumber, hfits]) ?_
          simp only [hhead, hdigits, List.cons.injEq, true_and]
          rintro (h | ⟨digits'', h'', ⟨rfl, -⟩ | ⟨rfl, h⟩⟩)
          · exact absurd (Option.some.inj h) (by decide)
          · exact hnumber h''
          · exact hfits h
      · rw [parseUnsigned_other hnumber fun digits' h h' => hplus ⟨digits', h, h'⟩]
        refine iff_of_true (by simp [hnumber]) ?_
        simp only [hhead, hdigits, List.cons.injEq, true_and]
        rintro (h | ⟨digits', h', ⟨rfl, -⟩ | ⟨rfl, -⟩⟩)
        · exact absurd (Option.some.inj h) (by decide)
        · exact hnumber h'
        · exact hplus ⟨digits', rfl, h'⟩
  · have hfirst := firstField_head hblock (by decide)
    have hnumber : ¬IsNumber (firstField (Text.trim raw)) := not_isNumber_of_head hfirst (by decide)
    have hsigned : ∀ digits, firstField (Text.trim raw) ≠ '+' :: digits :=
      ne_cons_of_head hfirst (by decide)
    have href : Reference.statement line raw = none := by
      simp only [Reference.statement]
      rw [hblock]
      simp only
      rw [← hblock]
      simp [heq]
    rw [href, misread_of_primitive heq, parseBlock_text hne heq (parseUnsigned_other hnumber
      (fun digits h => absurd h (hsigned digits)) _), hfirst]
    simp [hnumber, hsigned]

/-- A block that starts with another character. -/
theorem same_of_primitive (hblock : Text.trim raw = c :: rest) (hzero : c ≠ '0')
    (hdollar : c ≠ '$') : SameStatement line raw ↔ ¬Misread (Text.trim raw) := by
  have hne : Text.trim raw ≠ [] := by simp [hblock]
  have hhead : (Text.trim raw).head? ≠ some '0' := by simp [hblock, hzero]
  have href : Reference.statement line raw
      = if '=' ∉ Text.trim raw ∧ IsNumber (firstField (Text.trim raw)) then
          some (some (.primitive (numberOf (firstField (Text.trim raw)))
            (otherFields (Text.trim raw)) line))
        else none := by
    simp only [Reference.statement]
    split
    · rename_i h
      exact absurd h hne
    · rename_i h
      exact absurd (List.cons.inj (hblock.symm.trans h)).1 hzero
    · rename_i h
      exact absurd (List.cons.inj (hblock.symm.trans h)).1 hdollar
    · rfl
  unfold SameStatement
  rw [href]
  by_cases heq : '=' ∈ Text.trim raw
  · have hstrip : Text.stripPrefix ['$'] (target (Text.trim raw)) = none := by
      by_cases hc : c = '='
      · subst hc
        rw [target, hblock, trim_takeWhile_self]
        rfl
      · exact stripPrefix_of_head (target_head hblock hc) hdollar
    have htarget : ∀ digits, target (Text.trim raw) ≠ '$' :: digits := by
      intro digits h
      rw [h] at hstrip
      cases hstrip
    rw [parseBlock_assignment hne heq, hstrip, misread_of_assignment heq]
    simp [heq, hhead, htarget]
  · have hfirst : (firstField (Text.trim raw)).head? ≠ some '0' := by
      by_cases hc : c = ','
      · subst hc
        rw [firstField, hblock, trim_takeWhile_self]
        simp
      · rw [firstField_head hblock hc]
        simpa using hzero
    rw [misread_of_primitive heq]
    by_cases hnumber : IsNumber (firstField (Text.trim raw))
    · have hsigned := ne_plus_of_isNumber hnumber
      by_cases hfits : numberOf (firstField (Text.trim raw)) ≤ u32Max
      · rw [parseBlock_primitive hne heq ((parseUnsigned_number hnumber _).trans (if_pos hfits))]
        have hpos := numberOf_pos hnumber hfirst
        simp [heq, hnumber, hhead, hsigned, hpos.ne', hfits]
      · rw [parseBlock_text hne heq ((parseUnsigned_number hnumber _).trans (if_neg hfits)),
          if_neg hfirst]
        simp [heq, hnumber, hhead, not_le.1 hfits]
    · by_cases hplus : ∃ digits, firstField (Text.trim raw) = '+' :: digits ∧ IsNumber digits
      · obtain ⟨digits, hfield, hnumber'⟩ := hplus
        by_cases hfits : numberOf digits ≤ u32Max
        · rw [parseBlock_primitive hne heq (hfield ▸ (parseUnsigned_plus hnumber' _).trans
            (if_pos hfits))]
          refine iff_of_false (by simp [hnumber]) (not_not_intro (.inr ⟨digits, hfield, hnumber',
            hfits⟩))
        · rw [parseBlock_text hne heq (hfield ▸ (parseUnsigned_plus hnumber' _).trans
            (if_neg hfits)), if_neg hfirst]
          rw [hfield] at hnumber
          simp [hnumber, hfield, hfits]
      · rw [parseBlock_text hne heq (parseUnsigned_other hnumber
          (fun digits h h' => hplus ⟨digits, h, h'⟩) _), if_neg hfirst]
        refine iff_of_true (by simp [hnumber]) ?_
        rintro (⟨h, -⟩ | ⟨digits, hfield, hnumber', -⟩)
        · exact hnumber h
        · exact hplus ⟨digits, hfield, hnumber'⟩

/-- **A block is read as its statement if and only if it is not misread.** -/
theorem sameStatement_iff : SameStatement line raw ↔ ¬Misread (Text.trim raw) := by
  cases hblock : Text.trim raw with
  | nil =>
    have hcode : parseBlock line raw = .ok none := if_pos hblock
    have href : Reference.statement line raw = some none := by
      simp only [Reference.statement, hblock]
    refine iff_of_true (by rw [SameStatement, hcode, href]; rfl) ?_
    rw [misread_of_primitive List.not_mem_nil]
    rintro (⟨h, -⟩ | ⟨digits, hfield, -⟩)
    · exact h.1 rfl
    · cases hfield
  | cons c rest =>
    rw [← hblock]
    by_cases hzero : c = '0'
    · exact same_of_comment (hzero ▸ hblock)
    · by_cases hdollar : c = '$'
      · exact same_of_variable (hdollar ▸ hblock)
      · exact same_of_primitive hblock hzero hdollar

end Blocks

/-! ## Evaluation -/

section Evaluation

variable {V : Type} {A : Arithmetic V}

/-- The numbers of the variables of an expression fit a machine word. -/
def Fits (text : List Char) : Prop := ∀ t, Reading text t → ∀ n ∈ t.vars, n ≤ usizeMax

theorem value_within {most : ℕ} {read : ℕ → V} {t : Tree} (h : ∀ n ∈ t.vars, n ≤ most) :
    t.value A (within most read) = t.value A fun n => some (read n) := by
  induction t with
  | literal text => rfl
  | var n => exact if_pos (h n (List.mem_singleton_self n))
  | negation t ih => rw [Tree.value, Tree.value, ih h]
  | sum t t' ih ih' | difference t t' ih ih' | product t t' ih ih' | quotient t t' ih ih' =>
    simp only [Tree.vars, List.mem_append] at h
    rw [Tree.value, Tree.value, ih fun n hn => h n (.inl hn), ih' fun n hn => h n (.inr hn)]

theorem value_within_of_lt {most : ℕ} {read : ℕ → V} {t : Tree} {n : ℕ} (hn : n ∈ t.vars)
    (hmost : most < n) : t.value A (within most read) = none := by
  induction t with
  | literal text => cases hn
  | var m =>
    obtain rfl := List.mem_singleton.1 hn
    exact if_neg (not_le.2 hmost)
  | negation t ih => rw [Tree.value, ih hn]; rfl
  | sum t t' ih ih' | difference t t' ih ih' | product t t' ih ih' | quotient t t' ih ih' =>
    rcases List.mem_append.1 hn with hn | hn
    · rw [Tree.value, ih hn]
      rfl
    · rw [Tree.value, ih' hn]
      cases t.value A (within most read) <;> rfl

/-- An expression is evaluated as the reference does, if it has no value or its variables fit. -/
theorem eval_eq_iff {vars : List V} {line : ℕ} {text : List Char} :
    (eval A text vars line).toOption = Reference.value A (lookup A vars) text
      ↔ ((Reference.value A (lookup A vars) text).isSome → Fits text) := by
  by_cases hreading : ∃ t, Reading text t
  · obtain ⟨t, ht⟩ := hreading
    rw [toOption_eval ht, Reference.value_of_reading A ht]
    by_cases hfits : ∀ n ∈ t.vars, n ≤ usizeMax
    · exact iff_of_true (value_within hfits) fun _ t' ht' => ht.unique ht' ▸ hfits
    · have hnot : ¬Fits text := fun h => hfits (h t ht)
      push Not at hfits
      obtain ⟨n, hn, hwide⟩ := hfits
      rw [value_within_of_lt hn hwide]
      cases t.value A fun n => some (lookup A vars n) with
      | none => simp
      | some v => simp [hnot]
  · have hnone : Reference.value A (lookup A vars) text = none := dif_neg hreading
    have heval : (eval A text vars line).toOption = none := by
      cases hresult : eval A text vars line with
      | error e => rfl
      | ok v => exact absurd (exists_reading_of_eval hresult) hreading
    rw [hnone, heval]
    simp

theorem eval_of_not_fits {vars : List V} {line : ℕ} {text : List Char} (h : ¬Fits text) :
    (eval A text vars line).toOption = none := by
  unfold Fits at h
  push Not at h
  obtain ⟨t, ht, n, hn, hwide⟩ := h
  rw [toOption_eval ht, value_within_of_lt hn hwide]

theorem eval_eq_none {vars : List V} {line : ℕ} {text : List Char}
    (h : Reference.value A (lookup A vars) text = none) :
    (eval A text vars line).toOption = none := by
  rw [eval_eq_iff.2 (by simp [h]), h]

theorem toOption_mapM {E B C : Type} (f : B → Except E C) (xs : List B) :
    (xs.mapM f).toOption = xs.mapM fun x => (f x).toOption := by
  induction xs with
  | nil => rfl
  | cons x xs ih =>
    rw [List.mapM_cons, List.mapM_cons, toOption_bind]
    congr 1
    funext y
    rw [toOption_bind, ih]
    rfl

theorem mapM_eq_none_iff {B C : Type} {f : B → Option C} {xs : List B} :
    xs.mapM f = none ↔ ∃ x ∈ xs, f x = none := by
  induction xs with
  | nil => simp
  | cons x xs ih =>
    rw [List.mapM_cons]
    cases hx : f x with
    | none => simp [hx]
    | some y =>
      cases hxs : xs.mapM f with
      | none => simp [hx, ih.1 hxs]
      | some ys =>
        have hnone : ¬∃ x ∈ xs, f x = none := fun h => by simp [ih.2 h] at hxs
        simpa [hx] using hnone

theorem mapM_congr_mem {B C : Type} {f g : B → Option C} {xs : List B}
    (h : ∀ x ∈ xs, f x = g x) : xs.mapM f = xs.mapM g := by
  induction xs with
  | nil => rfl
  | cons x xs ih =>
    rw [List.forall_mem_cons] at h
    rw [List.mapM_cons, List.mapM_cons, h.1, ih h.2]

/-- So are the parameters of a primitive. -/
theorem mapM_eval_eq_iff {vars : List V} {line : ℕ} {params : List (List Char)} :
    (params.mapM fun p => (eval A p vars line).toOption)
        = params.mapM (Reference.value A (lookup A vars))
      ↔ ((params.mapM (Reference.value A (lookup A vars))).isSome → ∀ p ∈ params, Fits p) := by
  by_cases hnone : ∃ p ∈ params, Reference.value A (lookup A vars) p = none
  · obtain ⟨p, hp, hvalue⟩ := hnone
    rw [mapM_eq_none_iff.2 ⟨p, hp, hvalue⟩, mapM_eq_none_iff.2 ⟨p, hp, eval_eq_none hvalue⟩]
    simp
  · have hsome : (params.mapM (Reference.value A (lookup A vars))).isSome = true := by
      rw [Option.isSome_iff_ne_none]
      exact fun h => hnone (mapM_eq_none_iff.1 h)
    have hvalues : ∀ p ∈ params, (Reference.value A (lookup A vars) p).isSome = true := by
      intro p hp
      rw [Option.isSome_iff_ne_none]
      exact fun h => hnone ⟨p, hp, h⟩
    simp only [hsome, true_implies]
    constructor
    · intro heq p hp
      by_contra hnot
      rw [mapM_eq_none_iff.2 ⟨p, hp, eval_of_not_fits hnot⟩] at heq
      rw [← heq] at hsome
      cases hsome
    · intro hfits
      exact mapM_congr_mem fun p hp => eval_eq_iff.2 fun _ => hfits p hp

/-! ### Statements -/

@[simp] theorem lookup_zero (vars : List V) : lookup A vars 0 = A.zero := rfl

@[simp] theorem lookup_succ (vars : List V) (k : ℕ) :
    lookup A vars (k + 1) = vars.getD k A.zero := by
  unfold lookup
  by_cases hlen : vars.length < k + 1
  · rw [if_pos (.inr hlen), List.getD_eq_default _ _ (by omega)]
  · rw [if_neg (by omega), Nat.add_sub_cancel]

theorem given_eq_lookup (args : List V) : Reference.given A args = lookup A args := by
  funext n
  cases n with
  | zero => rfl
  | succ k => exact (lookup_succ args k).symm

/-- What the variables are behind an assignment: no variable has the number zero. -/
theorem lookup_assign (vars : List V) (index : ℕ) (v : V) :
    lookup A (if 1 ≤ index then
        (vars ++ List.replicate (index - vars.length) A.zero).set (index - 1) v
      else vars ++ List.replicate (index - vars.length) A.zero)
      = if index = 0 then lookup A vars else Function.update (lookup A vars) index v := by
  have hextended : ∀ k, (vars ++ List.replicate (index - vars.length) A.zero).getD k A.zero
      = vars.getD k A.zero := by
    intro k
    by_cases hk : k < vars.length
    · rw [List.getD_append _ _ _ _ hk]
    · rw [List.getD_append_right _ _ _ _ (not_lt.1 hk), List.getD_eq_default _ _ (not_lt.1 hk)]
      simp only [List.getD_eq_getElem?_getD, List.getElem?_replicate]
      split <;> rfl
  funext n
  cases index with
  | zero =>
    cases n with
    | zero => rfl
    | succ j =>
      rw [if_neg (by omega), if_pos rfl, lookup_succ, lookup_succ]
      exact hextended j
  | succ k =>
    rw [if_pos (Nat.le_add_left ..), if_neg (Nat.succ_ne_zero k), Nat.add_sub_cancel]
    cases n with
    | zero => rw [lookup_zero, Function.update_of_ne (Nat.succ_ne_zero k).symm, lookup_zero]
    | succ j =>
      rw [lookup_succ]
      by_cases hjk : j = k
      · subst hjk
        rw [Function.update_self, List.getD_eq_getElem?_getD,
          List.getElem?_set_self (by simp; omega)]
        rfl
      · rw [Function.update_of_ne (by omega), lookup_succ, ← hextended, List.getD_eq_getElem?_getD,
          List.getElem?_set_ne (Ne.symm hjk), ← List.getD_eq_getElem?_getD]

/-- The code evaluates a statement as the reference does. -/
def AgreesAt (A : Arithmetic V) (vars : List V) (entry : MacroLine) : Prop :=
  (entry.evaluate A vars).toOption.map (fun r => (lookup A r.1, r.2))
    = Reference.evaluate A (lookup A vars) entry

/-- What the code has to meet, to evaluate a statement as the reference does: where the reference
has a value, the variables that are read fit a machine word, and the variable that is assigned fits
memory; and nothing but zero is assigned to `$0`. -/
def Reference.Within (A : Arithmetic V) (env : ℕ → V) : MacroLine → Prop
  | .assignment n text => ∀ v, Reference.value A env text = some v →
    Fits text ∧ n < 2 ^ 60 ∧ (n = 0 → v = A.zero)
  | .primitive _ params _ => (params.mapM (Reference.value A env)).isSome → ∀ p ∈ params, Fits p

theorem evaluate_assignment (vars : List V) (n : ℕ) (text : List Char) :
    (MacroLine.evaluate A vars (.assignment n text)).toOption.map (fun r => (lookup A r.1, r.2))
      = (eval A text vars 0).toOption.bind fun v =>
          if n < 2 ^ 60 then
            some (if n = 0 then lookup A vars else Function.update (lookup A vars) n v, none)
          else none := by
  rw [MacroLine.evaluate, toOption_bind]
  cases eval A text vars 0 with
  | error e => rfl
  | ok v =>
    unfold resize
    by_cases hn : n < 2 ^ 60
    · simp only [if_pos hn]
      exact congrArg (fun env => some (env, none)) (lookup_assign vars n v)
    · simp only [if_neg hn]
      rfl

theorem agreesAt_iff {vars : List V} {entry : MacroLine} :
    AgreesAt A vars entry ↔ Reference.Within A (lookup A vars) entry := by
  cases entry with
  | assignment n text =>
    unfold AgreesAt Reference.Within
    rw [evaluate_assignment]
    simp only [Reference.evaluate]
    cases hvalue : Reference.value A (lookup A vars) text with
    | none =>
      rw [eval_eq_none hvalue]
      simp
    | some v =>
      by_cases hfits : Fits text
      · rw [eval_eq_iff.2 fun _ => hfits, hvalue]
        have hzero : lookup A vars = Function.update (lookup A vars) 0 v ↔ v = A.zero := by
          rw [eq_comm, Function.update_eq_self_iff, lookup_zero]
        by_cases hn : n < 2 ^ 60
        · rw [Option.bind_some, if_pos hn]
          by_cases hn0 : n = 0
          · subst hn0
            simp [hfits, hzero]
          · exact iff_of_true (by simp [hn0]) fun w hw => ⟨hfits, hn, fun h => absurd h hn0⟩
        · rw [Option.bind_some, if_neg hn]
          exact iff_of_false (by simp) fun h => hn (h v rfl).2.1
      · rw [eval_of_not_fits hfits]
        simp [hfits]
  | primitive code params line =>
    have hiff := @mapM_eval_eq_iff V A vars line params
    show _ ↔ ((params.mapM (Reference.value A (lookup A vars))).isSome → ∀ p ∈ params, Fits p)
    rw [← hiff]
    unfold AgreesAt
    rw [MacroLine.evaluate, toOption_bind, toOption_mapM]
    simp only [Reference.evaluate]
    cases params.mapM fun p => (eval A p vars line).toOption with
    | none =>
      cases params.mapM (Reference.value A (lookup A vars)) with
      | none => simp
      | some values => simp
    | some values =>
      cases params.mapM (Reference.value A (lookup A vars)) with
      | none => simp [pure, Except.pure, Except.toOption]
      | some values' => simp [pure, Except.pure, Except.toOption]

/-! ### Runs -/

/-- The code evaluates the statements in turn as the reference does. -/
def Agrees (A : Arithmetic V) : List V → List MacroLine → Prop
  | _, [] => True
  | vars, entry :: body => AgreesAt A vars entry ∧
      ∀ vars' call, entry.evaluate A vars = .ok (vars', call) → Agrees A vars' body

/-- The statements that the reference reaches meet what the code needs. -/
def Reference.WithinAll (A : Arithmetic V) : (ℕ → V) → List MacroLine → Prop
  | _, [] => True
  | env, entry :: body => Reference.Within A env entry ∧
      ∀ env' call, Reference.evaluate A env entry = some (env', call) → WithinAll A env' body

theorem agrees_iff {vars : List V} {body : List MacroLine} :
    Agrees A vars body ↔ Reference.WithinAll A (lookup A vars) body := by
  induction body generalizing vars with
  | nil => rfl
  | cons entry body ih =>
    unfold Agrees Reference.WithinAll
    rw [← agreesAt_iff]
    refine and_congr_right fun hagrees => ?_
    unfold AgreesAt at hagrees
    rw [← hagrees]
    constructor
    · intro h env' call hstep
      cases hevaluate : entry.evaluate A vars with
      | error e => simp [hevaluate, Except.toOption] at hstep
      | ok r =>
        simp only [hevaluate, Except.toOption, Option.map_some, Option.some.injEq,
          Prod.mk.injEq] at hstep
        rw [← hstep.1]
        exact ih.1 (h r.1 r.2 hevaluate)
    · intro h vars' call hstep
      exact ih.2 (h (lookup A vars') call (by simp [hstep, Except.toOption]))

end Evaluation

/-! ## A body -/

section Body

variable {V : Type} (A : Arithmetic V)

/-- The code follows the reference in a body with parameters: it reads the same statements, and
evaluates them to the same values. -/
structure Faithful (line : ℕ) (blocks : List (List Char)) (args : List V) : Prop where
  statements : ∀ raw ∈ blocks, SameStatement line raw
  values : ∀ name m, MacroDef.parse name blocks line = .ok m → Agrees A args m.body

theorem parse_eq_ok_iff {line : ℕ} {blocks : List (List Char)} (name : List Char) {m : MacroDef}
    (h : ∀ raw ∈ blocks, SameStatement line raw) :
    MacroDef.parse name blocks line = .ok m
      ↔ ∃ body, blocks.mapM (Reference.statement line) = some body
          ∧ m = ⟨name, body.reduceOption⟩ := by
  have hbody : (blocks.mapM (parseBlock line)).toOption
      = blocks.mapM (Reference.statement line) := by
    rw [toOption_mapM]
    exact mapM_congr_mem h
  rw [← hbody]
  unfold MacroDef.parse
  cases blocks.mapM (parseBlock line) with
  | error e => simp [bind, Except.bind, Except.toOption]
  | ok body => simp [bind, Except.bind, pure, Except.pure, Except.toOption, eq_comm]

/-- **A macro is evaluated as the reference evaluates it if and only if none of its blocks is
misread, and the statements that are reached stay within the numbers of the machine and assign
nothing but zero to `$0`.** -/
theorem faithful_iff (line : ℕ) (blocks : List (List Char)) (args : List V) :
    Faithful A line blocks args
      ↔ (∀ raw ∈ blocks, ¬Misread (Text.trim raw))
        ∧ ∀ body, blocks.mapM (Reference.statement line) = some body →
            Reference.WithinAll A (Reference.given A args) body.reduceOption := by
  rw [given_eq_lookup]
  constructor
  · intro h
    refine ⟨fun raw hraw => sameStatement_iff.1 (h.statements raw hraw), fun body hbody => ?_⟩
    exact agrees_iff.1 (h.values [] _ ((parse_eq_ok_iff [] h.statements).2 ⟨body, hbody, rfl⟩))
  · rintro ⟨hread, hwithin⟩
    have hstatements : ∀ raw ∈ blocks, SameStatement line raw :=
      fun raw hraw => sameStatement_iff.2 (hread raw hraw)
    refine ⟨hstatements, fun name m hm => ?_⟩
    obtain ⟨body, hbody, rfl⟩ := (parse_eq_ok_iff name hstatements).1 hm
    exact agrees_iff.2 (hwithin body hbody)

/-- The shape of a body, as the reference evaluates its statements. -/
noncomputable def Reference.resolveFrom {G : Type} (S : Shapes V G) :
    (ℕ → V) → G → List MacroLine → Option G
  | _, acc, [] => some acc
  | env, acc, entry :: body => (Reference.evaluate A env entry).bind fun r =>
      (compose A S acc r.2).toOption.bind fun acc => Reference.resolveFrom S r.1 acc body

theorem toOption_resolveFrom {G : Type} (S : Shapes V G) {vars : List V} {body : List MacroLine}
    (h : Agrees A vars body) (acc : G) :
    (resolveFrom A S vars acc body).toOption
      = Reference.resolveFrom A S (lookup A vars) acc body := by
  induction body generalizing vars acc with
  | nil => rfl
  | cons entry body ih =>
    obtain ⟨hentry, hbody⟩ := h
    unfold AgreesAt at hentry
    rw [resolveFrom, Reference.resolveFrom, toOption_bind, ← hentry]
    cases hevaluate : entry.evaluate A vars with
    | error e => rfl
    | ok r =>
      show (compose A S acc r.2 >>= fun acc => resolveFrom A S r.1 acc body).toOption
        = (compose A S acc r.2).toOption.bind fun acc =>
            Reference.resolveFrom A S (lookup A r.1) acc body
      rw [toOption_bind]
      congr 1
      funext acc'
      exact ih (hbody r.1 r.2 hevaluate) acc'

/-- The shape of a macro is that of the reference. -/
theorem Faithful.resolve {A : Arithmetic V} {line : ℕ} {blocks : List (List Char)} {args : List V}
    (h : Faithful A line blocks args) {G : Type} (S : Shapes V G) (name : List Char) :
    (do (← MacroDef.parse name blocks line).resolve A S args).toOption
      = (blocks.mapM (Reference.statement line)).bind fun body =>
          Reference.resolveFrom A S (Reference.given A args) S.empty body.reduceOption := by
  rw [toOption_bind, given_eq_lookup]
  cases hparse : MacroDef.parse name blocks line with
  | error e =>
    cases hbody : blocks.mapM (Reference.statement line) with
    | none => rfl
    | some body =>
      cases hparse.symm.trans ((parse_eq_ok_iff name h.statements).2 ⟨body, hbody, rfl⟩)
  | ok m =>
    obtain ⟨body, hbody, rfl⟩ := (parse_eq_ok_iff name h.statements).1 hparse
    rw [hbody]
    exact toOption_resolveFrom A S (h.values name _ hparse) S.empty

end Body

/-- The arithmetic of the rationals. -/
def exact : Arithmetic ℚ where
  literal text :=
    let whole := text.takeWhile (· ≠ '.')
    let fraction := (text.dropWhile (· ≠ '.')).tail
    (Nat.ofDigitChars 10 (whole ++ fraction) 0 : ℚ) / 10 ^ fraction.length
  zero := 0
  isZero x := x = 0
  neg x := -x
  add x y := x + y
  sub x y := x - y
  mul x y := x * y
  div x y := x / y

/-- A macro without a block. -/
theorem resolve_nil :
    (do (← MacroDef.parse [] [] 0).resolve exact (⟨1, (· / 2), (· ≠ 0), fun _ => 0, fun _ => 0,
      fun _ _ _ => (), fun _ _ _ => .ok (), fun _ _ _ _ => (), fun _ => (), fun _ _ _ _ _ => (),
      fun _ _ => (), (), fun _ _ => .ok (), fun _ _ => .ok ()⟩ : Shapes ℚ Unit) []).toOption
      = some () :=
  Faithful.resolve ⟨by simp, fun name m hm => by
    cases hm
    trivial⟩ _ []

/-- A comment with an equals sign, `0 w=2`, before a circle. -/
def commentedCircle : List (List Char) :=
  [['0', 'w', '=', '2'], ['1', ',', '1', ',', '$', '1', ',', '0', ',', '0']]

theorem not_faithful_comment : ¬∀ (line : ℕ) (blocks : List (List Char)) (args : List ℚ),
    Faithful exact line blocks args := by
  intro h
  have hsame := (h 1 commentedCircle [2]).statements _ (List.mem_cons_self ..)
  have hcode : (parseBlock 1 ['0', 'w', '=', '2']).toOption = none := by decide
  have href : Reference.statement 1 ['0', 'w', '=', '2'] = some none := by decide
  unfold SameStatement at hsame
  rw [hcode, href] at hsame
  cases hsame

end Galdr.Gerber.Macro
