import Mathlib
import Galdr.GeoBackend
import Galdr.ImportLexer
import Galdr.ProgramText

/-!
# Expressions of aperture macros

The parameters of an aperture macro are expressions over its variables. A recursive descent reads
and evaluates them in one pass over the bytes of the text.

The grammar is stated apart (`Derives`): a text of it has one tree (`Reading.unique`), and a tree
has a value unless it divides by zero (`Tree.value`). The evaluator gives a text that has a tree
the value of the tree, where the numbers of its variables fit a machine word, and fails on every
other text (`toOption_eval`).
-/

namespace Galdr.Gerber.Macro

open Text (isWhitespace)

/-- The operations that expressions are evaluated with. -/
structure Arithmetic (V : Type) where
  /-- The number that a numeral denotes. -/
  literal : List Char → V
  /-- The value of what is not set. -/
  zero : V
  /-- A number is zero. -/
  isZero : V → Bool
  /-- The negation. -/
  neg : V → V
  /-- The sum. -/
  add : V → V → V
  /-- The difference. -/
  sub : V → V → V
  /-- The product. -/
  mul : V → V → V
  /-- The quotient. -/
  div : V → V → V

/-- What is wrong with a macro. -/
inductive Message
  /-- `trailing characters in macro expression '…'`. -/
  | trailing (input : List Char)
  /-- `division by zero in macro`. -/
  | divisionByZero
  /-- `unbalanced parentheses in macro`. -/
  | unbalanced
  /-- `unexpected token … in macro expression`. -/
  | unexpected (token : Option Char)
  /-- `malformed $ variable in macro`. -/
  | malformedVariable
  /-- `malformed number in macro`. -/
  | malformedNumber
  /-- `malformed macro assignment '…'`. -/
  | malformedAssignment (block : List Char)
  /-- `malformed macro primitive '…'`. -/
  | malformedPrimitive (block : List Char)
  deriving DecidableEq

/-- How the reading of a macro ends early. -/
inductive Stop
  /-- A syntax error at a line. -/
  | syntaxError (line : ℕ) (message : Message)
  /-- A primitive that no shape is made of. -/
  | unsupported (line : ℕ) (code : ℕ)
  /-- The backend failed. -/
  | geometry (error : Geo.Error)
  /-- A list is longer than memory can be. -/
  | capacityOverflow
  /-- The calls are nested deeper than the stack. -/
  | stackOverflow
  deriving DecidableEq

variable {V : Type}

/-! ## The evaluator -/

/-- The text after its white space. -/
def skipWs (s : List Char) : List Char := s.dropWhile isWhitespace

/-- The characters of a number. -/
def inNumber (c : Char) : Bool := c.isDigit || c = '.'

/-- The characters are read as a number: with a digit, and with one point at most. -/
def isNumeral (text : List Char) : Bool :=
  text.all inNumber && text.any Char.isDigit && decide (text.count '.' ≤ 1)

/-- A number, to its end. -/
def number (A : Arithmetic V) (line : ℕ) (s : List Char) : Except Stop (V × List Char) :=
  if isNumeral (s.takeWhile inNumber) then
    .ok (A.literal (s.takeWhile inNumber), s.dropWhile inNumber)
  else .error (.syntaxError line .malformedNumber)

/-- The number of a variable after its dollar sign, and what the variable has. -/
def macroVariable (most : ℕ) (read : ℕ → V) (line : ℕ) (s : List Char) :
    Except Stop (V × List Char) :=
  match Text.parseUnsigned most (s.takeWhile Char.isDigit) with
  | some index => .ok (read index, s.dropWhile Char.isDigit)
  | none => .error (.syntaxError line .malformedVariable)

/-- The operations of a sum. -/
def sums (A : Arithmetic V) : Char → Option (V → V → Except Stop V)
  | '+' => some fun value operand => .ok (A.add value operand)
  | '-' => some fun value operand => .ok (A.sub value operand)
  | _ => none

/-- The operations of a product. A quotient by zero fails. -/
def products (A : Arithmetic V) (line : ℕ) : Char → Option (V → V → Except Stop V)
  | 'x' | 'X' | '*' => some fun value operand => .ok (A.mul value operand)
  | '/' => some fun value divisor =>
    if A.isZero divisor then .error (.syntaxError line .divisionByZero)
    else .ok (A.div value divisor)
  | _ => none

/-- The loop of a rule: while a sign of the rule follows, its operation is done with the operand
after it. Every round takes a character, so that the length of the text bounds the rounds. -/
def chain (operation : Char → Option (V → V → Except Stop V))
    (operand : List Char → Except Stop (V × List Char)) :
    ℕ → V → List Char → Except Stop (V × List Char)
  | 0, value, s => .ok (value, skipWs s)
  | rounds + 1, value, s =>
    match skipWs s with
    | [] => .ok (value, [])
    | sign :: rest =>
      match operation sign with
      | none => .ok (value, sign :: rest)
      | some f => do
        let (right, rest) ← operand rest
        let value ← f value right
        chain operation operand rounds value rest

mutual

/-- `expr := term (('+' | '-') term)*`, with a stack of `frames` calls. -/
def expr (A : Arithmetic V) (most : ℕ) (read : ℕ → V) (line : ℕ) :
    ℕ → List Char → Except Stop (V × List Char)
  | 0, _ => .error .stackOverflow
  | frames + 1, s => do
    let (value, s) ← term A most read line frames s
    chain (sums A) (term A most read line frames) s.length value s

/-- `term := factor (('x' | '*' | '/') factor)*`. -/
def term (A : Arithmetic V) (most : ℕ) (read : ℕ → V) (line : ℕ) :
    ℕ → List Char → Except Stop (V × List Char)
  | 0, _ => .error .stackOverflow
  | frames + 1, s => do
    let (value, s) ← factor A most read line frames s
    chain (products A line) (factor A most read line frames) s.length value s

/-- `factor := ('+' | '-') factor | '(' expr ')' | number | '$' digits`. -/
def factor (A : Arithmetic V) (most : ℕ) (read : ℕ → V) (line : ℕ) :
    ℕ → List Char → Except Stop (V × List Char)
  | 0, _ => .error .stackOverflow
  | frames + 1, s =>
    match skipWs s with
    | '+' :: s => factor A most read line frames s
    | '-' :: s => do
      let (value, s) ← factor A most read line frames s
      return (A.neg value, s)
    | '(' :: s => do
      let (value, s) ← expr A most read line frames s
      match skipWs s with
      | ')' :: s => return (value, s)
      | _ => throw (.syntaxError line .unbalanced)
    | '$' :: s => macroVariable most read line s
    | c :: s =>
      if inNumber c then number A line (c :: s)
      else .error (.syntaxError line (.unexpected (some c)))
    | [] => .error (.syntaxError line (.unexpected none))

end

/-- What `$n` has: the `n`th of the variables, from one on. What is not set is zero. -/
def lookup (A : Arithmetic V) (vars : List V) (index : ℕ) : V :=
  if index = 0 ∨ vars.length < index then A.zero else vars.getD (index - 1) A.zero

/-- The bytes of a text, each as a character. -/
def byteChars (input : List Char) : List Char :=
  (Text.utf8 input).map fun b => Char.ofNat b.toNat

/-- The greatest number of a machine word. -/
def usizeMax : ℕ := 2 ^ 64 - 1

/-- The value of an expression, with a stack of `frames` calls. -/
def evalWithin (A : Arithmetic V) (frames : ℕ) (input : List Char) (vars : List V) (line : ℕ) :
    Except Stop V := do
  let (value, s) ← expr A usizeMax (lookup A vars) line frames (byteChars input)
  if skipWs s = [] then return value
  else throw (.syntaxError line (.trailing input))

/-- The value of an expression, with a stack that is deep enough for its text. -/
def eval (A : Arithmetic V) (input : List Char) (vars : List V) (line : ℕ) : Except Stop V :=
  evalWithin A (3 * (byteChars input).length + 3) input vars line

/-! ## The grammar -/

/-- The rules of the grammar. -/
inductive Rule
  | expr
  | term
  | factor
  deriving DecidableEq

/-- What an expression says. -/
inductive Tree
  | literal (text : List Char)
  | var (n : ℕ)
  | negation (t : Tree)
  | sum (t t' : Tree)
  | difference (t t' : Tree)
  | product (t t' : Tree)
  | quotient (t t' : Tree)
  deriving DecidableEq

/-- White space only. -/
def Blank (text : List Char) : Prop := ∀ c ∈ text, isWhitespace c = true

/-- The signs of a product. -/
def mulSigns : List Char := ['x', 'X', '*']

/-- The texts of a rule, with the trees that they stand for. Sums and products associate to the
left, and products bind tighter. -/
inductive Derives : Rule → List Char → Tree → Prop
  | literal {ws text : List Char} (hws : Blank ws) (htext : isNumeral text = true) :
      Derives .factor (ws ++ text) (.literal text)
  | var {ws digits : List Char} (hws : Blank ws) (hne : digits ≠ [])
      (hdigits : digits.all Char.isDigit = true) :
      Derives .factor (ws ++ '$' :: digits) (.var (Nat.ofDigitChars 10 digits 0))
  | plus {ws s : List Char} {t : Tree} (hws : Blank ws) (h : Derives .factor s t) :
      Derives .factor (ws ++ '+' :: s) t
  | minus {ws s : List Char} {t : Tree} (hws : Blank ws) (h : Derives .factor s t) :
      Derives .factor (ws ++ '-' :: s) (.negation t)
  | parens {ws ws' s : List Char} {t : Tree} (hws : Blank ws) (hws' : Blank ws')
      (h : Derives .expr s t) : Derives .factor (ws ++ '(' :: (s ++ ws' ++ [')'])) t
  | factor {s : List Char} {t : Tree} (h : Derives .factor s t) : Derives .term s t
  | product {s ws s' : List Char} {t t' : Tree} {sign : Char} (h : Derives .term s t)
      (hws : Blank ws) (hsign : sign ∈ mulSigns) (h' : Derives .factor s' t') :
      Derives .term (s ++ ws ++ sign :: s') (.product t t')
  | quotient {s ws s' : List Char} {t t' : Tree} (h : Derives .term s t) (hws : Blank ws)
      (h' : Derives .factor s' t') : Derives .term (s ++ ws ++ '/' :: s') (.quotient t t')
  | term {s : List Char} {t : Tree} (h : Derives .term s t) : Derives .expr s t
  | sum {s ws s' : List Char} {t t' : Tree} (h : Derives .expr s t) (hws : Blank ws)
      (h' : Derives .term s' t') : Derives .expr (s ++ ws ++ '+' :: s') (.sum t t')
  | difference {s ws s' : List Char} {t t' : Tree} (h : Derives .expr s t) (hws : Blank ws)
      (h' : Derives .term s' t') : Derives .expr (s ++ ws ++ '-' :: s') (.difference t t')

/-- The value of a tree, where the variables have the values that `env` says. -/
def Tree.value (A : Arithmetic V) (env : ℕ → Option V) : Tree → Option V
  | .literal text => some (A.literal text)
  | .var n => env n
  | .negation t => (t.value A env).map A.neg
  | .sum t t' => (t.value A env).bind fun v => (t'.value A env).map (A.add v)
  | .difference t t' => (t.value A env).bind fun v => (t'.value A env).map (A.sub v)
  | .product t t' => (t.value A env).bind fun v => (t'.value A env).map (A.mul v)
  | .quotient t t' => (t.value A env).bind fun v =>
      (t'.value A env).bind fun v' => if A.isZero v' then none else some (A.div v v')

/-- The numbers of the variables of a tree. -/
def Tree.vars : Tree → List ℕ
  | .literal _ => []
  | .var n => [n]
  | .negation t => t.vars
  | .sum t t' | .difference t t' | .product t t' | .quotient t t' => t.vars ++ t'.vars

/-- A text of the grammar, and the tree it stands for. The characters of the grammar are those of
ASCII. -/
def Reading (text : List Char) (t : Tree) : Prop :=
  (∀ c ∈ text, c.toNat < 128) ∧ ∃ s ws, text = s ++ ws ∧ Blank ws ∧ Derives .expr s t

/-! ## The evaluator accepts texts of the grammar only -/

theorem blank_nil : Blank [] := by
  simp [Blank]

theorem Blank.append {ws ws' : List Char} (h : Blank ws) (h' : Blank ws') : Blank (ws ++ ws') := by
  intro c hc
  rcases List.mem_append.1 hc with hc | hc
  · exact h c hc
  · exact h' c hc

/-- A text is its white space, and the text after it. -/
theorem exists_skipWs (s : List Char) : ∃ ws, s = ws ++ skipWs s ∧ Blank ws :=
  ⟨s.takeWhile isWhitespace, (List.takeWhile_append_dropWhile ..).symm,
    fun _ hc => List.mem_takeWhile_imp hc⟩

theorem skipWs_blank_append {ws : List Char} (h : Blank ws) (s : List Char) :
    skipWs (ws ++ s) = skipWs s := by
  unfold skipWs
  rw [List.dropWhile_append_of_pos h]

theorem skipWs_skipWs (s : List Char) : skipWs (skipWs s) = skipWs s := by
  unfold skipWs
  rw [List.dropWhile_idempotent]

theorem skipWs_cons {c : Char} (h : isWhitespace c = false) (s : List Char) :
    skipWs (c :: s) = c :: s := by
  simp [skipWs, h]

/-- The operand reads a text of `P`, and white space after it. -/
def Accepts (operand : List Char → Except Stop (V × List Char)) (P : List Char → Prop) : Prop :=
  ∀ s v rest, operand s = .ok (v, rest) → ∃ pre ws, s = pre ++ ws ++ rest ∧ Blank ws ∧ P pre

/-- A loop whose operands are of `Q` extends a text of `P`, where `P` has the texts that are
extended by a sign and an operand. -/
theorem chain_accepts {operation : Char → Option (V → V → Except Stop V)}
    {operand : List Char → Except Stop (V × List Char)} {P Q : List Char → Prop}
    (hoperand : Accepts operand Q)
    (hstep : ∀ s ws sign f s', P s → Blank ws → operation sign = some f → Q s' →
      P (s ++ ws ++ sign :: s'))
    (rounds : ℕ) : ∀ (value : V) (s : List Char) (value' : V) (rest : List Char),
      chain operation operand rounds value s = .ok (value', rest) →
      ∀ before ws, P before → Blank ws →
        ∃ mid ws', ws ++ s = mid ++ ws' ++ rest ∧ Blank ws' ∧ P (before ++ mid) := by
  have stop : ∀ s before ws, P before → Blank ws →
      ∃ mid ws', ws ++ s = mid ++ ws' ++ skipWs s ∧ Blank ws' ∧ P (before ++ mid) := by
    intro s before ws hbefore hws
    obtain ⟨ws', hs, hws'⟩ := exists_skipWs s
    exact ⟨[], ws ++ ws', by simp [← hs], hws.append hws', by simpa using hbefore⟩
  induction rounds with
  | zero =>
    intro value s value' rest h before ws hbefore hws
    simp only [chain, Except.ok.injEq, Prod.mk.injEq] at h
    exact h.2 ▸ stop s before ws hbefore hws
  | succ rounds ih =>
    intro value s value' rest h before ws hbefore hws
    have hstop := stop s before ws hbefore hws
    unfold chain at h
    match hskip : skipWs s with
    | [] =>
      simp only [hskip, Except.ok.injEq, Prod.mk.injEq] at h
      exact h.2 ▸ hskip ▸ hstop
    | sign :: after =>
      match hop : operation sign with
      | none =>
        simp only [hskip, hop, Except.ok.injEq, Prod.mk.injEq] at h
        exact h.2 ▸ hskip ▸ hstop
      | some f =>
        simp only [hskip, hop] at h
        obtain ⟨⟨right, afterOperand⟩, hright, h⟩ := Geo.exists_ok_of_bind h
        obtain ⟨applied, happlied, h⟩ := Geo.exists_ok_of_bind h
        obtain ⟨skipped, hs, hskipped⟩ := exists_skipWs s
        obtain ⟨pre, ws', hafter, hws', hpre⟩ := hoperand _ _ _ hright
        obtain ⟨mid, ws'', hmid, hws'', hP⟩ :=
          ih _ _ _ _ h (before ++ (ws ++ skipped) ++ sign :: pre) ws'
            (hstep before (ws ++ skipped) sign f pre hbefore (hws.append hskipped) hop hpre) hws'
        refine ⟨ws ++ skipped ++ sign :: pre ++ mid, ws'', ?_, hws'', by simpa using hP⟩
        calc ws ++ s
            _ = ws ++ skipped ++ sign :: (pre ++ (ws' ++ afterOperand)) := by
              rw [hs, hskip, hafter]
              simp
            _ = ws ++ skipped ++ sign :: pre ++ mid ++ ws'' ++ rest := by
              rw [hmid]
              simp

section Sound

variable {A : Arithmetic V} {most : ℕ} {read : ℕ → V} {line : ℕ}

theorem number_accepts {s : List Char} {v : V} {rest : List Char}
    (h : number A line s = .ok (v, rest)) :
    ∃ pre, s = pre ++ rest ∧ isNumeral pre = true := by
  unfold number at h
  split at h
  · rename_i hnumeral
    simp only [Except.ok.injEq, Prod.mk.injEq] at h
    exact ⟨_, by rw [← h.2, List.takeWhile_append_dropWhile], hnumeral⟩
  · cases h

theorem macroVariable_accepts {s : List Char} {v : V} {rest : List Char}
    (h : macroVariable most read line s = .ok (v, rest)) :
    ∃ digits, s = digits ++ rest ∧ digits ≠ [] ∧ digits.all Char.isDigit = true := by
  unfold macroVariable at h
  split at h
  · rename_i index hindex
    simp only [Except.ok.injEq, Prod.mk.injEq] at h
    refine ⟨_, by rw [← h.2, List.takeWhile_append_dropWhile], fun hnil => ?_, ?_⟩
    · simp [hnil, Text.parseUnsigned] at hindex
    · simp
  · cases h

/-- The texts of a rule. -/
def Of (rule : Rule) (s : List Char) : Prop := ∃ t, Derives rule s t

theorem of_sums {s ws s' : List Char} {sign : Char} {f : V → V → Except Stop V}
    (h : Of .expr s) (hws : Blank ws) (hop : sums A sign = some f) (h' : Of .term s') :
    Of .expr (s ++ ws ++ sign :: s') := by
  obtain ⟨t, ht⟩ := h
  obtain ⟨t', ht'⟩ := h'
  unfold sums at hop
  split at hop
  · exact ⟨_, .sum ht hws ht'⟩
  · exact ⟨_, .difference ht hws ht'⟩
  · cases hop

theorem of_products {s ws s' : List Char} {sign : Char} {f : V → V → Except Stop V}
    (h : Of .term s) (hws : Blank ws) (hop : products A line sign = some f) (h' : Of .factor s') :
    Of .term (s ++ ws ++ sign :: s') := by
  obtain ⟨t, ht⟩ := h
  obtain ⟨t', ht'⟩ := h'
  unfold products at hop
  split at hop
  · exact ⟨_, .product ht hws (by simp [mulSigns]) ht'⟩
  · exact ⟨_, .product ht hws (by simp [mulSigns]) ht'⟩
  · exact ⟨_, .product ht hws (by simp [mulSigns]) ht'⟩
  · exact ⟨_, .quotient ht hws ht'⟩
  · cases hop

/-- A rule whose loop starts with an operand reads a text of the rule. -/
theorem accepts_chain {operation : Char → Option (V → V → Except Stop V)}
    {operand : List Char → Except Stop (V × List Char)} {P Q : List Char → Prop}
    (hoperand : Accepts operand Q) (hfirst : ∀ s, Q s → P s)
    (hstep : ∀ s ws sign f s', P s → Blank ws → operation sign = some f → Q s' →
      P (s ++ ws ++ sign :: s')) :
    Accepts (fun s => do
      let (value, s) ← operand s
      chain operation operand s.length value s) P := by
  intro s v rest h
  obtain ⟨⟨value, after⟩, hvalue, h⟩ := Geo.exists_ok_of_bind h
  obtain ⟨pre, ws, hs, hws, hpre⟩ := hoperand _ _ _ hvalue
  obtain ⟨mid, ws', hmid, hws', hP⟩ :=
    chain_accepts hoperand hstep _ _ _ _ _ h pre ws (hfirst pre hpre) hws
  refine ⟨pre ++ mid, ws', ?_, hws', hP⟩
  calc s
      _ = pre ++ (ws ++ after) := by rw [hs, List.append_assoc]
      _ = pre ++ mid ++ ws' ++ rest := by
        rw [hmid]
        simp

theorem factor_accepts {frames : ℕ}
    (hexpr : Accepts (expr A most read line frames) (Of .expr))
    (hfactor : Accepts (factor A most read line frames) (Of .factor)) :
    Accepts (factor A most read line (frames + 1)) (Of .factor) := by
  intro s v rest h
  obtain ⟨ws, hs, hws⟩ := exists_skipWs s
  unfold factor at h
  split at h
  · rename_i after hskip
    rw [hskip] at hs
    obtain ⟨pre, ws', hafter, hws', t, ht⟩ := hfactor _ _ _ h
    exact ⟨ws ++ '+' :: pre, ws', by simp [hs, hafter], hws', t, .plus hws ht⟩
  · rename_i after hskip
    rw [hskip] at hs
    obtain ⟨⟨value, afterFactor⟩, hvalue, h⟩ := Geo.exists_ok_of_bind h
    obtain ⟨pre, ws', hafter, hws', t, ht⟩ := hfactor _ _ _ hvalue
    simp only [pure, Except.pure, Except.ok.injEq, Prod.mk.injEq] at h
    exact ⟨ws ++ '-' :: pre, ws', by simp [hs, hafter, h.2], hws', _, .minus hws ht⟩
  · rename_i after hskip
    rw [hskip] at hs
    obtain ⟨⟨value, afterExpr⟩, hvalue, h⟩ := Geo.exists_ok_of_bind h
    obtain ⟨pre, ws', hafter, hws', t, ht⟩ := hexpr _ _ _ hvalue
    obtain ⟨ws'', hafter', hws''⟩ := exists_skipWs afterExpr
    dsimp only at h
    split at h
    · rename_i after' hclose
      rw [hclose] at hafter'
      simp only [pure, Except.pure, Except.ok.injEq, Prod.mk.injEq] at h
      exact ⟨ws ++ '(' :: (pre ++ (ws' ++ ws'') ++ [')']), [],
        by simp [hs, hafter, hafter', h.2], blank_nil, t, .parens hws (hws'.append hws'') ht⟩
    · cases h
  · rename_i after hskip
    rw [hskip] at hs
    obtain ⟨digits, hafter, hne, hdigits⟩ := macroVariable_accepts h
    exact ⟨ws ++ '$' :: digits, [], by simp [hs, hafter], blank_nil, _, .var hws hne hdigits⟩
  · rename_i c after _ _ _ _ hskip
    rw [hskip] at hs
    split at h
    · obtain ⟨pre, hafter, hnumeral⟩ := number_accepts h
      exact ⟨ws ++ pre, [], by simp [hs, hafter], blank_nil, _, .literal hws hnumeral⟩
    · cases h
  · cases h

/-- Whatever a rule reads is a text of it, with white space after it. -/
theorem accepts (frames : ℕ) :
    Accepts (expr A most read line frames) (Of .expr)
      ∧ Accepts (term A most read line frames) (Of .term)
      ∧ Accepts (factor A most read line frames) (Of .factor) := by
  induction frames with
  | zero => refine ⟨fun _ _ _ h => ?_, fun _ _ _ h => ?_, fun _ _ _ h => ?_⟩ <;> cases h
  | succ frames ih =>
    obtain ⟨hexpr, hterm, hfactor⟩ := ih
    exact ⟨accepts_chain hterm (fun _ ⟨t, ht⟩ => ⟨t, .term ht⟩)
        fun _ _ _ _ _ h hws hop h' => of_sums h hws hop h',
      accepts_chain hfactor (fun _ ⟨t, ht⟩ => ⟨t, .factor ht⟩)
        fun _ _ _ _ _ h hws hop h' => of_products h hws hop h',
      factor_accepts hexpr hfactor⟩

end Sound

/-! ## The evaluator gives a text the value of its tree -/

/-- No number goes on. -/
def Ends (rest : List Char) : Prop := ∀ c ∈ rest.head?, inNumber c = false

theorem inNumber_of_isWhitespace {c : Char} (h : isWhitespace c = true) : inNumber c = false := by
  unfold inNumber
  rw [Bool.or_eq_false_iff]
  refine ⟨?_, ?_⟩
  · by_contra hdigit
    rw [Bool.not_eq_false] at hdigit
    rw [Text.isWhitespace_of_isDigit hdigit] at h
    exact Bool.false_ne_true h
  · rw [decide_eq_false_iff_not]
    rintro rfl
    exact absurd h (by decide)

theorem Ends.blank_append {ws s : List Char} (hws : Blank ws) (h : Ends s) : Ends (ws ++ s) := by
  intro c hc
  cases ws with
  | nil => exact h c hc
  | cons w ws =>
    simp only [List.cons_append, List.head?_cons, Option.mem_some_iff] at hc
    exact hc ▸ inNumber_of_isWhitespace (hws w (List.mem_cons_self ..))

theorem ends_cons {c : Char} (h : inNumber c = false) (s : List Char) : Ends (c :: s) := by
  simp [Ends, h]

theorem takeWhile_append_of_ends {p : Char → Bool} {s rest : List Char} (hs : s.all p = true)
    (hrest : ∀ c ∈ rest.head?, p c = false) :
    (s ++ rest).takeWhile p = s ∧ (s ++ rest).dropWhile p = rest := by
  rw [List.all_eq_true] at hs
  rw [List.takeWhile_append_of_pos hs, List.dropWhile_append_of_pos hs]
  cases rest with
  | nil => simp
  | cons c rest =>
    have hc := hrest c rfl
    simp [hc]

section Loops

variable {operation : Char → Option (V → V → Except Stop V)}
  {operand : List Char → Except Stop (V × List Char)}

theorem length_skipWs_le (s : List Char) : (skipWs s).length ≤ s.length :=
  List.length_dropWhile_le ..

/-- A loop stops where no sign of its rule follows. -/
theorem chain_stop {s : List Char} (h : ∀ sign ∈ (skipWs s).head?, operation sign = none)
    (rounds : ℕ) (value : V) : chain operation operand rounds value s = .ok (value, skipWs s) := by
  cases rounds with
  | zero => rfl
  | succ rounds =>
    unfold chain
    match hskip : skipWs s with
    | [] => rfl
    | sign :: rest =>
      rw [hskip] at h
      simp only [h sign rfl]

/-- As many rounds as characters are enough. -/
theorem chain_rounds {P : List Char → Prop} (hoperand : Accepts operand P) (rounds : ℕ) :
    ∀ (rounds' : ℕ) (value : V) (s : List Char), s.length ≤ rounds → s.length ≤ rounds' →
      chain operation operand rounds value s = chain operation operand rounds' value s := by
  induction rounds with
  | zero =>
    intro rounds' value s h _
    rw [List.length_eq_zero_iff.1 (Nat.le_zero.1 h), chain_stop (by simp [skipWs]),
      chain_stop (by simp [skipWs])]
  | succ rounds ih =>
    intro rounds' value s h h'
    cases rounds' with
    | zero =>
      rw [List.length_eq_zero_iff.1 (Nat.le_zero.1 h'), chain_stop (by simp [skipWs]),
        chain_stop (by simp [skipWs])]
    | succ rounds' =>
      unfold chain
      match hskip : skipWs s with
      | [] => rfl
      | sign :: after =>
        have hlen : after.length < s.length := by
          have := length_skipWs_le s
          rw [hskip, List.length_cons] at this
          omega
        match hop : operation sign with
        | none => simp only [hop]
        | some f =>
          match hright : operand after with
          | .error e => simp only [hop, hright, bind, Except.bind]
          | .ok (right, afterOperand) =>
            obtain ⟨pre, ws, hafter, -, -⟩ := hoperand _ _ _ hright
            have hshorter : afterOperand.length ≤ after.length := by
              simp only [hafter, List.length_append]
              omega
            match happlied : f value right with
            | .error e => simp [hop, hright, happlied, bind, Except.bind]
            | .ok applied =>
              simp only [hop, hright, happlied, bind, Except.bind]
              exact ih rounds' applied afterOperand (by omega) (by omega)

/-- A loop begins with white space or without. -/
theorem chain_skipWs {P : List Char → Prop} (hoperand : Accepts operand P) (s : List Char)
    (value : V) : chain operation operand (skipWs s).length value (skipWs s)
      = chain operation operand s.length value s := by
  rw [chain_rounds hoperand (skipWs s).length s.length value (skipWs s) le_rfl
    (length_skipWs_le s)]
  cases s.length with
  | zero => exact congrArg (fun s => Except.ok (value, s)) (skipWs_skipWs s)
  | succ rounds => rw [chain, chain, skipWs_skipWs]

/-- A sign of the rule: its operation is done with the operand after it, and the loop goes on. -/
theorem chain_step {P : List Char → Prop} (hoperand : Accepts operand P) {s after : List Char}
    {sign : Char} {f : V → V → Except Stop V} (hskip : skipWs s = sign :: after)
    (hop : operation sign = some f) (value : V) :
    (chain operation operand s.length value s).toOption
      = (operand after).toOption.bind fun right => (f value right.1).toOption.bind fun value =>
          (chain operation operand right.2.length value right.2).toOption := by
  have hlen : after.length + 1 ≤ s.length := by
    have := length_skipWs_le s
    rwa [hskip, List.length_cons] at this
  obtain ⟨rounds, hrounds⟩ := Nat.exists_eq_add_of_le' hlen
  rw [chain_rounds hoperand s.length (rounds + after.length + 1) value s le_rfl (by omega)]
  simp only [chain, hskip, hop]
  match hright : operand after with
  | .error e => rfl
  | .ok (right, afterOperand) =>
    obtain ⟨pre, ws, hafter, -, -⟩ := hoperand _ _ _ hright
    have hshorter : afterOperand.length ≤ after.length := by
      simp only [hafter, List.length_append]
      omega
    match happlied : f value right with
    | .error e => simp [happlied, bind, Except.bind, Except.toOption]
    | .ok applied =>
      simp only [happlied, bind, Except.bind, Except.toOption, Option.bind]
      rw [chain_rounds hoperand _ afterOperand.length applied afterOperand (by omega) le_rfl]

end Loops

section Complete

variable {A : Arithmetic V} {most : ℕ} {read : ℕ → V} {line : ℕ}

/-- What the variables have whose numbers fit. -/
def within (most : ℕ) (read : ℕ → V) (n : ℕ) : Option V := if n ≤ most then some (read n) else none

/-- A text of a rule is read as the value of its tree: a factor whole, a term and an expression up
to where their loops go on. -/
def Evaluates (A : Arithmetic V) (most : ℕ) (read : ℕ → V) (line : ℕ) (s : List Char) (t : Tree) :
    Rule → Prop
  | .factor => ∀ rest frames, Ends rest → 3 * s.length + 1 ≤ frames →
      (factor A most read line frames (s ++ rest)).toOption
        = (t.value A (within most read)).map fun v => (v, rest)
  | .term => ∀ rest frames, Ends rest → 3 * s.length + 1 ≤ frames →
      (term A most read line (frames + 1) (s ++ rest)).toOption
        = (t.value A (within most read)).bind fun v =>
            (chain (products A line) (factor A most read line frames) rest.length v rest).toOption
  | .expr => ∀ rest frames, Ends rest →
      (∀ sign ∈ (skipWs rest).head?, products A line sign = none) →
      3 * s.length + 2 ≤ frames →
      (expr A most read line (frames + 1) (s ++ rest)).toOption
        = (t.value A (within most read)).bind fun v =>
            (chain (sums A) (term A most read line frames) rest.length v rest).toOption

theorem factor_blank_append {ws : List Char} (hws : Blank ws) (frames : ℕ) (s : List Char) :
    factor A most read line (frames + 1) (ws ++ s) = factor A most read line (frames + 1) s := by
  unfold factor
  rw [skipWs_blank_append hws]

theorem factor_plus (frames : ℕ) (s : List Char) :
    factor A most read line (frames + 1) ('+' :: s) = factor A most read line frames s := by
  simp only [factor, skipWs_cons (show isWhitespace '+' = false by decide)]

theorem factor_minus (frames : ℕ) (s : List Char) :
    (factor A most read line (frames + 1) ('-' :: s)).toOption
      = (factor A most read line frames s).toOption.map fun v => (A.neg v.1, v.2) := by
  simp only [factor, skipWs_cons (show isWhitespace '-' = false by decide)]
  cases factor A most read line frames s <;> rfl

theorem factor_var (frames : ℕ) (s : List Char) :
    factor A most read line (frames + 1) ('$' :: s) = macroVariable most read line s := by
  simp only [factor, skipWs_cons (show isWhitespace '$' = false by decide)]

theorem factor_parens {frames : ℕ} {s rest : List Char} {value : Option V}
    (h : (expr A most read line frames s).toOption = value.map fun v => (v, ')' :: rest)) :
    (factor A most read line (frames + 1) ('(' :: s)).toOption
      = value.map fun v => (v, rest) := by
  simp only [factor, skipWs_cons (show isWhitespace '(' = false by decide)]
  match hexpr : expr A most read line frames s with
  | .error e =>
    rw [hexpr] at h
    cases value with
    | none => rfl
    | some v => cases h
  | .ok (v, after) =>
    rw [hexpr] at h
    cases value with
    | none => cases h
    | some v' =>
      simp only [Except.toOption, Option.map, Option.some.injEq, Prod.mk.injEq] at h
      simp only [bind, Except.bind, h.2, skipWs_cons (show isWhitespace ')' = false by decide)]
      rw [h.1]
      rfl

theorem factor_number (frames : ℕ) {c : Char} (h : inNumber c = true) (s : List Char) :
    factor A most read line (frames + 1) (c :: s) = number A line (c :: s) := by
  have hsolid : isWhitespace c = false := by
    by_contra hws
    rw [Bool.not_eq_false] at hws
    exact Bool.false_ne_true ((inNumber_of_isWhitespace hws).symm.trans h)
  unfold factor
  rw [skipWs_cons hsolid]
  split
  iterate 4
    · rename_i heq
      injection heq with hc
      exact absurd h (hc ▸ by decide)
  · rename_i heq
    injection heq with hc hs
    rw [← hc, ← hs, if_pos h]
  · rename_i heq
    cases heq

theorem evaluates_literal {ws text : List Char} (hws : Blank ws) (htext : isNumeral text = true) :
    Evaluates A most read line (ws ++ text) (.literal text) .factor := by
  intro rest frames hrest hframes
  obtain ⟨frames, rfl⟩ := Nat.exists_eq_add_of_le' ((Nat.le_add_left ..).trans hframes)
  have hall : text.all inNumber = true := by
    unfold isNumeral at htext
    simp only [Bool.and_eq_true] at htext
    exact htext.1.1
  obtain ⟨htake, hdrop⟩ := takeWhile_append_of_ends hall hrest
  rw [List.append_assoc, factor_blank_append hws]
  match text, htext with
  | c :: text, htext =>
    have hc : inNumber c = true := by
      simp only [List.all_cons, Bool.and_eq_true] at hall
      exact hall.1
    rw [List.cons_append, factor_number frames hc, ← List.cons_append, number, htake, hdrop,
      if_pos htext]
    rfl

theorem evaluates_var {ws digits : List Char} (hws : Blank ws) (hne : digits ≠ [])
    (hdigits : digits.all Char.isDigit = true) :
    Evaluates A most read line (ws ++ '$' :: digits) (.var (Nat.ofDigitChars 10 digits 0))
      .factor := by
  intro rest frames hrest hframes
  obtain ⟨frames, rfl⟩ := Nat.exists_eq_add_of_le' ((Nat.le_add_left ..).trans hframes)
  have hend : ∀ c ∈ rest.head?, c.isDigit = false := fun c hc => by
    have := hrest c hc
    unfold inNumber at this
    exact (Bool.or_eq_false_iff.1 this).1
  obtain ⟨htake, hdrop⟩ := takeWhile_append_of_ends hdigits hend
  rw [List.append_assoc, factor_blank_append hws, List.cons_append, factor_var, macroVariable,
    htake, hdrop]
  rw [Text.parseUnsigned_digits (List.all_eq_true.1 hdigits) hne]
  simp only [Tree.value, within]
  by_cases hmost : Nat.ofDigitChars 10 digits 0 ≤ most
  · simp only [if_pos hmost]
    rfl
  · simp only [if_neg hmost]
    rfl

theorem evaluates_plus {ws s : List Char} {t : Tree} (hws : Blank ws)
    (ih : Evaluates A most read line s t .factor) :
    Evaluates A most read line (ws ++ '+' :: s) t .factor := by
  intro rest frames hrest hframes
  simp only [List.length_append, List.length_cons] at hframes
  obtain ⟨frames, rfl⟩ := Nat.exists_eq_add_of_le' ((Nat.le_add_left ..).trans hframes)
  rw [List.append_assoc, factor_blank_append hws, List.cons_append, factor_plus]
  exact ih rest frames hrest (by omega)

theorem evaluates_minus {ws s : List Char} {t : Tree} (hws : Blank ws)
    (ih : Evaluates A most read line s t .factor) :
    Evaluates A most read line (ws ++ '-' :: s) (.negation t) .factor := by
  intro rest frames hrest hframes
  simp only [List.length_append, List.length_cons] at hframes
  obtain ⟨frames, rfl⟩ := Nat.exists_eq_add_of_le' ((Nat.le_add_left ..).trans hframes)
  rw [List.append_assoc, factor_blank_append hws, List.cons_append, factor_minus,
    ih rest frames hrest (by omega)]
  simp only [Tree.value, Option.map_map]
  rfl

theorem evaluates_parens {ws ws' s : List Char} {t : Tree} (hws : Blank ws) (hws' : Blank ws')
    (ih : Evaluates A most read line s t .expr) :
    Evaluates A most read line (ws ++ '(' :: (s ++ ws' ++ [')'])) t .factor := by
  intro rest frames hrest hframes
  simp only [List.length_append, List.length_cons, List.length_nil] at hframes
  obtain ⟨frames, rfl⟩ := Nat.exists_eq_add_of_le' (show 2 ≤ frames by omega)
  have hskip : skipWs (ws' ++ ')' :: rest) = ')' :: rest := by
    rw [skipWs_blank_append hws', skipWs_cons (by decide)]
  have hexpr := ih (ws' ++ ')' :: rest) frames (.blank_append hws' (ends_cons (by decide) rest))
    (by simp [hskip, products]) (by omega)
  rw [List.append_assoc, factor_blank_append hws, List.cons_append]
  have htext : s ++ ws' ++ [')'] ++ rest = s ++ (ws' ++ ')' :: rest) := by simp
  rw [htext]
  refine factor_parens ?_
  rw [hexpr]
  cases t.value A (within most read) with
  | none => rfl
  | some v =>
    simp only [Option.bind_some, Option.map_some]
    rw [chain_stop (by simp [hskip, sums]), hskip]
    rfl

theorem toOption_bind {E B C : Type} (x : Except E B) (f : B → Except E C) :
    (x >>= f).toOption = x.toOption.bind fun b => (f b).toOption := by
  cases x <;> rfl

theorem evaluates_factor {s : List Char} {t : Tree} (ih : Evaluates A most read line s t .factor) :
    Evaluates A most read line s t .term := by
  intro rest frames hrest hframes
  rw [term, toOption_bind, ih rest frames hrest hframes, Option.bind_map]
  rfl

theorem evaluates_term {s : List Char} {t : Tree} (ih : Evaluates A most read line s t .term) :
    Evaluates A most read line s t .expr := by
  intro rest frames hrest hstop hframes
  obtain ⟨frames, rfl⟩ := Nat.exists_eq_add_of_le' (show 1 ≤ frames by omega)
  rw [expr, toOption_bind, ih rest frames hrest (by omega), Option.bind_assoc]
  congr 1
  funext v
  rw [chain_stop hstop]
  exact congrArg Except.toOption (chain_skipWs (accepts (frames + 1)).2.1 rest v)

theorem ends_signed {ws : List Char} {sign : Char} (hws : Blank ws) (h : inNumber sign = false)
    (s : List Char) : Ends (ws ++ sign :: s) :=
  .blank_append hws (ends_cons h s)

/-- An operation of a product. -/
theorem evaluates_step {s ws s' : List Char} {t t' tree : Tree} {sign : Char}
    {f : V → V → Except Stop V} (hws : Blank ws) (hsign : isWhitespace sign = false)
    (hnumber : inNumber sign = false) (hop : products A line sign = some f)
    (htree : tree.value A (within most read) = (t.value A (within most read)).bind fun v =>
      (t'.value A (within most read)).bind fun v' => (f v v').toOption)
    (ih : Evaluates A most read line s t .term) (ih' : Evaluates A most read line s' t' .factor) :
    Evaluates A most read line (s ++ ws ++ sign :: s') tree .term := by
  intro rest frames hrest hframes
  simp only [List.length_append, List.length_cons] at hframes
  have hskip : skipWs (ws ++ sign :: (s' ++ rest)) = sign :: (s' ++ rest) := by
    rw [skipWs_blank_append hws, skipWs_cons hsign]
  have htext : s ++ ws ++ sign :: s' ++ rest = s ++ (ws ++ sign :: (s' ++ rest)) := by simp
  rw [htext, ih _ frames (ends_signed hws hnumber _) (by omega), htree, Option.bind_assoc]
  congr 1
  funext v
  rw [chain_step (accepts frames).2.2 hskip hop, ih' rest frames hrest (by omega),
    Option.bind_map, Option.bind_assoc]
  rfl

/-- An operation of a sum. -/
theorem evaluates_sum_step {s ws s' : List Char} {t t' tree : Tree} {sign : Char}
    {f : V → V → Except Stop V} (hws : Blank ws) (hsign : isWhitespace sign = false)
    (hnumber : inNumber sign = false) (hproduct : products A line sign = none)
    (hop : sums A sign = some f)
    (htree : tree.value A (within most read) = (t.value A (within most read)).bind fun v =>
      (t'.value A (within most read)).bind fun v' => (f v v').toOption)
    (ih : Evaluates A most read line s t .expr) (ih' : Evaluates A most read line s' t' .term) :
    Evaluates A most read line (s ++ ws ++ sign :: s') tree .expr := by
  intro rest frames hrest hstop hframes
  simp only [List.length_append, List.length_cons] at hframes
  obtain ⟨frames, rfl⟩ := Nat.exists_eq_add_of_le' (show 1 ≤ frames by omega)
  have hskip : skipWs (ws ++ sign :: (s' ++ rest)) = sign :: (s' ++ rest) := by
    rw [skipWs_blank_append hws, skipWs_cons hsign]
  have htext : s ++ ws ++ sign :: s' ++ rest = s ++ (ws ++ sign :: (s' ++ rest)) := by simp
  rw [htext, ih _ (frames + 1) (ends_signed hws hnumber _) (by simp [hskip, hproduct]) (by omega),
    htree, Option.bind_assoc]
  congr 1
  funext v
  rw [chain_step (accepts (frames + 1)).2.1 hskip hop, ih' rest frames hrest (by omega),
    Option.bind_assoc, Option.bind_assoc]
  congr 1
  funext v'
  rw [chain_stop hstop]
  show ((f v v').toOption.bind fun value => _) = _
  congr 1
  funext value
  exact congrArg Except.toOption (chain_skipWs (accepts (frames + 1)).2.1 rest value)

theorem map_eq_bind_ok (x : Option V) (f : V → V) :
    x.map f = x.bind fun v => (Except.ok (f v) : Except Stop V).toOption := by
  cases x <;> rfl

/-- A text of a rule is read as the value of its tree. -/
theorem evaluates {rule : Rule} {s : List Char} {t : Tree} (h : Derives rule s t) :
    Evaluates A most read line s t rule := by
  induction h with
  | literal hws htext => exact evaluates_literal hws htext
  | var hws hne hdigits => exact evaluates_var hws hne hdigits
  | plus hws _ ih => exact evaluates_plus hws ih
  | minus hws _ ih => exact evaluates_minus hws ih
  | parens hws hws' _ ih => exact evaluates_parens hws hws' ih
  | factor _ ih => exact evaluates_factor ih
  | term _ ih => exact evaluates_term ih
  | product _ hws hsign _ ih ih' =>
    simp only [mulSigns, List.mem_cons, List.not_mem_nil, or_false] at hsign
    rcases hsign with rfl | rfl | rfl <;>
      exact evaluates_step hws (by decide) (by decide) rfl
        (by simp only [Tree.value, map_eq_bind_ok]) ih ih'
  | quotient _ hws _ ih ih' =>
    refine evaluates_step hws (by decide) (by decide) rfl ?_ ih ih'
    rw [Tree.value]
    congr 1
    funext v
    congr 1
    funext v'
    split <;> rfl
  | sum _ hws _ ih ih' =>
    exact evaluates_sum_step hws (by decide) (by decide) rfl rfl
      (by simp only [Tree.value, map_eq_bind_ok]) ih ih'
  | difference _ hws _ ih ih' =>
    exact evaluates_sum_step hws (by decide) (by decide) rfl rfl
      (by simp only [Tree.value, map_eq_bind_ok]) ih ih'

end Complete

/-! ## The evaluator and the grammar -/

/-- The characters of the grammar. -/
def inGrammar (c : Char) : Prop :=
  isWhitespace c = true ∨ inNumber c = true ∨ c ∈ ['+', '-', '(', ')', '$', 'x', 'X', '*', '/']

theorem inGrammar_of_blank {ws : List Char} (h : Blank ws) : ∀ c ∈ ws, inGrammar c :=
  fun c hc => .inl (h c hc)

theorem inGrammar_append {s s' : List Char} (h : ∀ c ∈ s, inGrammar c)
    (h' : ∀ c ∈ s', inGrammar c) : ∀ c ∈ s ++ s', inGrammar c := by
  intro c hc
  rcases List.mem_append.1 hc with hc | hc
  · exact h c hc
  · exact h' c hc

theorem inGrammar_cons {s : List Char} {c : Char} (hc : inGrammar c) (h : ∀ c ∈ s, inGrammar c) :
    ∀ d ∈ c :: s, inGrammar d :=
  List.forall_mem_cons.2 ⟨hc, h⟩

theorem inGrammar_of_derives {rule : Rule} {s : List Char} {t : Tree} (h : Derives rule s t) :
    ∀ c ∈ s, inGrammar c := by
  induction h with
  | literal hws htext =>
    refine inGrammar_append (inGrammar_of_blank hws) fun c hc => .inr (.inl ?_)
    unfold isNumeral at htext
    simp only [Bool.and_eq_true, List.all_eq_true] at htext
    exact htext.1.1 c hc
  | var hws hne hdigits =>
    refine inGrammar_append (inGrammar_of_blank hws)
      (inGrammar_cons (by simp [inGrammar]) fun c hc => .inr (.inl ?_))
    simp [inNumber, List.all_eq_true.1 hdigits c hc]
  | plus hws _ ih | minus hws _ ih =>
    exact inGrammar_append (inGrammar_of_blank hws) (inGrammar_cons (by simp [inGrammar]) ih)
  | parens hws hws' _ ih =>
    refine inGrammar_append (inGrammar_of_blank hws) (inGrammar_cons (by simp [inGrammar]) ?_)
    exact inGrammar_append (inGrammar_append ih (inGrammar_of_blank hws'))
      (inGrammar_cons (by simp [inGrammar]) (by simp))
  | factor _ ih | term _ ih => exact ih
  | product _ hws hsign _ ih ih' =>
    refine inGrammar_append (inGrammar_append ih (inGrammar_of_blank hws))
      (inGrammar_cons (.inr (.inr ?_)) ih')
    simp only [mulSigns, List.mem_cons, List.not_mem_nil, or_false] at hsign
    rcases hsign with rfl | rfl | rfl <;> simp
  | quotient _ hws _ ih ih' | sum _ hws _ ih ih' | difference _ hws _ ih ih' =>
    exact inGrammar_append (inGrammar_append ih (inGrammar_of_blank hws))
      (inGrammar_cons (by simp [inGrammar]) ih')

/-- The first byte of a character beyond ASCII is of none of the characters of the grammar. -/
theorem exists_lead {c : Char} (h : 128 ≤ c.toNat) :
    ∃ b ∈ String.utf8EncodeChar c, 192 ≤ b.toNat := by
  have htoNat : c.toNat = c.val.toNat := rfl
  rw [htoNat] at h
  unfold String.utf8EncodeChar
  generalize c.val.toNat = v at h
  dsimp only
  rw [if_neg (by omega)]
  split
  · exact ⟨_, List.mem_cons_self .., by rw [UInt8.toNat_ofNat']; omega⟩
  · split
    · exact ⟨_, List.mem_cons_self .., by rw [UInt8.toNat_ofNat']; omega⟩
    · exact ⟨_, List.mem_cons_self .., by rw [UInt8.toNat_ofNat']; omega⟩

theorem toNat_lt_of_inGrammar {c : Char} (h : inGrammar c) (hbyte : c.toNat < 256) :
    c.toNat < 192 := by
  rcases h with h | h | h
  · simp only [isWhitespace, Bool.or_eq_true, Bool.and_eq_true, decide_eq_true_eq] at h
    omega
  · simp only [inNumber, Char.isDigit, Bool.or_eq_true, Bool.and_eq_true, decide_eq_true_eq] at h
    rcases h with h | rfl
    · have : c.toNat ≤ 57 := h.2
      omega
    · decide
  · simp only [List.mem_cons, List.not_mem_nil, or_false] at h
    rcases h with rfl | rfl | rfl | rfl | rfl | rfl | rfl | rfl | rfl <;> decide

theorem toNat_byteChar (b : UInt8) : (Char.ofNat b.toNat).toNat = b.toNat := by
  have hlt := b.toNat_lt
  have hvalid : b.toNat.isValidChar := .inl (by omega)
  unfold Char.ofNat
  rw [dif_pos hvalid]
  rfl

theorem ascii_of_byteChars {input : List Char} (h : ∀ c ∈ byteChars input, inGrammar c) :
    ∀ c ∈ input, c.toNat < 128 := by
  intro c hc
  by_contra hge
  obtain ⟨b, hb, hlead⟩ := exists_lead (Nat.not_lt.1 hge)
  have hmem : Char.ofNat b.toNat ∈ byteChars input :=
    List.mem_map.2 ⟨b, List.mem_flatMap.2 ⟨c, hc, hb⟩, rfl⟩
  have hlt := toNat_lt_of_inGrammar (h _ hmem) ((toNat_byteChar b).symm ▸ b.toNat_lt)
  rw [toNat_byteChar] at hlt
  omega

theorem byteChars_of_ascii {input : List Char} (h : ∀ c ∈ input, c.toNat < 128) :
    byteChars input = input := by
  induction input with
  | nil => rfl
  | cons c input ih =>
    rw [List.forall_mem_cons] at h
    rcases Text.utf8EncodeChar_cases c with ⟨hc, hencode⟩ | ⟨hc, -, -⟩
    · have hbyte : (UInt8.ofNat c.toNat).toNat = c.toNat := by
        rw [UInt8.toNat_ofNat']
        omega
      calc byteChars (c :: input)
          _ = (String.utf8EncodeChar c).map (fun b => Char.ofNat b.toNat) ++ byteChars input :=
            List.map_append ..
          _ = c :: input := by
            rw [hencode, ih h.2, List.map_singleton, hbyte, Char.ofNat_toNat]
            rfl
    · omega

section Whole

variable {A : Arithmetic V} {most : ℕ} {read : ℕ → V} {line : ℕ}

/-- A text of the grammar is read whole, as the value of its tree. -/
theorem expr_of_derives {s ws : List Char} {t : Tree} (hws : Blank ws) (h : Derives .expr s t)
    {frames : ℕ} (hframes : 3 * (s ++ ws).length + 3 ≤ frames) :
    (expr A most read line frames (s ++ ws)).toOption
      = (t.value A (within most read)).map fun v => (v, []) := by
  obtain ⟨frames, rfl⟩ := Nat.exists_eq_add_of_le' (show 1 ≤ frames by omega)
  have hskip : skipWs ws = [] := by
    have := skipWs_blank_append hws []
    rwa [List.append_nil] at this
  have hends : Ends ws := by
    have := Ends.blank_append hws (s := []) (by simp [Ends])
    rwa [List.append_nil] at this
  simp only [List.length_append] at hframes
  rw [evaluates h ws frames hends (by simp [hskip]) (by omega)]
  cases t.value A (within most read) with
  | none => rfl
  | some v =>
    rw [Option.bind_some, chain_stop (by simp [hskip]), hskip]
    rfl

/-- What is read whole is a text of the grammar. -/
theorem exists_derives_of_expr {frames : ℕ} {s : List Char} {v : V} {rest : List Char}
    (h : expr A most read line frames s = .ok (v, rest)) (hrest : skipWs rest = []) :
    ∃ text ws t, s = text ++ ws ∧ Blank ws ∧ Derives .expr text t := by
  obtain ⟨text, ws, hs, hws, t, ht⟩ := (accepts frames).1 _ _ _ h
  obtain ⟨ws', hrest', hws'⟩ := exists_skipWs rest
  rw [hrest, List.append_nil] at hrest'
  exact ⟨text, ws ++ ws', t, by rw [hs, hrest', List.append_assoc], hws.append hws', ht⟩

end Whole

/-- The operations that build the tree of an expression. -/
def building : Arithmetic Tree where
  literal := Tree.literal
  zero := .var 0
  isZero _ := false
  neg := .negation
  add := .sum
  sub := .difference
  mul := .product
  div := .quotient

theorem value_building {most : ℕ} {t : Tree} (h : ∀ n ∈ t.vars, n ≤ most) :
    t.value building (within most Tree.var) = some t := by
  induction t with
  | literal text => rfl
  | var n => exact if_pos (h n (List.mem_singleton_self n))
  | negation t ih => rw [Tree.value, ih h]; rfl
  | sum t t' ih ih' | difference t t' ih ih' | product t t' ih ih' | quotient t t' ih ih' =>
    simp only [Tree.vars, List.mem_append] at h
    rw [Tree.value, ih fun n hn => h n (.inl hn), ih' fun n hn => h n (.inr hn)]
    rfl

/-- A text of the grammar stands for one tree. -/
theorem Reading.unique {text : List Char} {t t' : Tree} (h : Reading text t)
    (h' : Reading text t') : t = t' := by
  obtain ⟨-, s, ws, hs, hws, ht⟩ := h
  obtain ⟨-, s', ws', hs', hws', ht'⟩ := h'
  obtain ⟨most, hmost⟩ : ∃ most, ∀ n ∈ t.vars ++ t'.vars, n ≤ most :=
    ⟨(t.vars ++ t'.vars).sum, fun n hn => List.le_sum_of_mem hn⟩
  have hread := @expr_of_derives _ building most Tree.var 0 s ws t hws ht _ le_rfl
  have hread' := @expr_of_derives _ building most Tree.var 0 s' ws' t' hws' ht' _ le_rfl
  rw [← hs, value_building fun n hn => hmost n (List.mem_append_left _ hn)] at hread
  rw [← hs', value_building fun n hn => hmost n (List.mem_append_right _ hn), hread] at hread'
  exact congrArg Prod.fst (Option.some.inj hread')

/-- The evaluator gives a text the value of its tree, where the variables that it cannot number
have none. -/
theorem toOption_eval {A : Arithmetic V} {vars : List V} {line : ℕ} {input : List Char} {t : Tree}
    (h : Reading input t) :
    (eval A input vars line).toOption = t.value A (within usizeMax (lookup A vars)) := by
  obtain ⟨hascii, s, ws, hs, hws, ht⟩ := h
  have hbytes := byteChars_of_ascii hascii
  rw [eval, evalWithin, toOption_bind, hbytes, hs, expr_of_derives hws ht le_rfl, Option.bind_map]
  cases t.value A (within usizeMax (lookup A vars)) with
  | none => rfl
  | some v => rfl

/-- A text that has a value is of the grammar. -/
theorem exists_reading_of_eval {A : Arithmetic V} {vars : List V} {line : ℕ} {input : List Char}
    {frames : ℕ} {v : V} (h : evalWithin A frames input vars line = .ok v) :
    ∃ t, Reading input t := by
  obtain ⟨⟨v', rest⟩, hexpr, h⟩ := Geo.exists_ok_of_bind h
  dsimp only at h
  split at h
  · rename_i hrest
    obtain ⟨s, ws, t, hs, hws, ht⟩ := exists_derives_of_expr hexpr hrest
    have hgrammar : ∀ c ∈ byteChars input, inGrammar c :=
      hs ▸ inGrammar_append (inGrammar_of_derives ht) (inGrammar_of_blank hws)
    have hascii := ascii_of_byteChars hgrammar
    exact ⟨t, hascii, s, ws, by rw [← hs, byteChars_of_ascii hascii], hws, ht⟩
  · cases h

end Galdr.Gerber.Macro
