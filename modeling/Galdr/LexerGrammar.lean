import Galdr.GcodeParser

/-!
# The language of lines

A line that the lexer finds no fault with is a sequence of words, a letter and a number each,
with blanks and comments between them (`Line`). A line may end in a comment that is open: one
behind a semicolon, or behind a parenthesis that is not closed. Blanks may stand between a
letter and its number.

The lexer reads from such a line the words that it spells, and accepts no other line
(`words_eq_iff`). What stands between the words, and the case of the letters, is not part of
what the line spells (`words_eq_of_respelled`).

The language has two readings. The strict one leaves out what the lexer is lenient about: a
parenthesis that is not closed, and blanks inside of a word.
-/

namespace Galdr.Grammar

open Lexer

/-! ## Numbers -/

/-- The number that digits write. -/
def digitsValue (digits : List UInt8) : ℕ :=
  digits.foldl (fun value d => value * 10 + (d.toNat - 48)) 0

section Numbers

variable {K : Type} [Field K]

/-- Digits, with at most one point before, among or behind them, and the decimal that they
write. -/
inductive Decimal : List UInt8 → K → Prop
  /-- Digits alone. -/
  | whole {digits : List UInt8} (hne : digits ≠ []) (h : ∀ d ∈ digits, isAsciiDigit d = true) :
    Decimal digits (digitsValue digits : K)
  /-- Digits around a point. -/
  | point {whole fraction : List UInt8} (hne : whole ≠ [] ∨ fraction ≠ [])
    (hwhole : ∀ d ∈ whole, isAsciiDigit d = true)
    (hfraction : ∀ d ∈ fraction, isAsciiDigit d = true) :
    Decimal (whole ++ '.'.toUInt8 :: fraction)
      ((digitsValue (whole ++ fraction) : K) / 10 ^ fraction.length)

/-- A decimal with a sign or without. -/
inductive Number : List UInt8 → K → Prop
  /-- Without a sign. -/
  | unsigned {text : List UInt8} {v : K} (h : Decimal text v) : Number text v
  /-- With a plus. -/
  | plus {text : List UInt8} {v : K} (h : Decimal text v) : Number ('+'.toUInt8 :: text) v
  /-- With a minus. -/
  | minus {text : List UInt8} {v : K} (h : Decimal text v) : Number ('-'.toUInt8 :: text) (-v)

end Numbers

/-! ## Lines -/

/-- Blanks, line ends and closed comments. -/
inductive Gap : List UInt8 → Prop
  /-- Nothing. -/
  | nil : Gap []
  /-- A blank. -/
  | blank {b : UInt8} {rest : List UInt8} (hb : isWhitespace b = true) (h : Gap rest) :
    Gap (b :: rest)
  /-- A comment. -/
  | comment {body rest : List UInt8} (hbody : ∀ b ∈ body, b ≠ ')'.toUInt8) (h : Gap rest) :
    Gap ('('.toUInt8 :: (body ++ ')'.toUInt8 :: rest))

/-- What may end a line. -/
inductive Ending (strict : Bool) : List UInt8 → Prop
  /-- Nothing. -/
  | nil : Ending strict []
  /-- A comment to the end of the line. -/
  | semicolon (body : List UInt8) : Ending strict (';'.toUInt8 :: body)
  /-- A comment that is not closed. -/
  | unclosed {body : List UInt8} (hlenient : strict = false)
    (hbody : ∀ b ∈ body, b ≠ ')'.toUInt8) : Ending strict ('('.toUInt8 :: body)

/-- A blank inside of a word. -/
def isInnerBlank (b : UInt8) : Bool := b = 32 || b = 9

variable {K : Type} [Field K]

/-- A letter of either case, and a number. -/
structure Spelled (strict : Bool) (text : List UInt8) (word : Word K) : Prop where
  /-- The letter, the blanks behind it and the number. -/
  parts : ∃ letter blanks token, text = letter :: (blanks ++ token) ∧
    isAsciiAlphabetic letter = true ∧ toAsciiUppercase letter = word.letter ∧
    (∀ b ∈ blanks, isInnerBlank b = true) ∧ (strict = true → blanks = []) ∧
    Number token word.value

/-- A line that spells words. -/
inductive Line (strict : Bool) : List UInt8 → List (Word K) → Prop
  /-- No more words. -/
  | ending {gap tail : List UInt8} (hgap : Gap gap) (htail : Ending strict tail) :
    Line strict (gap ++ tail) []
  /-- A word and more of them. -/
  | word {gap text rest : List UInt8} {word : Word K} {words : List (Word K)} (hgap : Gap gap)
    (htext : Spelled strict text word) (hrest : Line strict rest words) :
    Line strict (gap ++ (text ++ rest)) (word :: words)

/-! ## What is read as a number -/

section Reading

theorem foldl_digits (digits : List UInt8) (n : ℕ) :
    digits.foldl (fun value d => value * 10 + (d.toNat - 48)) n =
      n * 10 ^ digits.length + digitsValue digits := by
  induction digits generalizing n with
  | nil => simp [digitsValue]
  | cons d digits ih =>
    unfold digitsValue
    rw [List.foldl_cons, List.foldl_cons, ih, ih (0 * 10 + _), List.length_cons]
    ring

theorem digitsValue_cons (d : UInt8) (digits : List UInt8) :
    digitsValue (d :: digits) = (d.toNat - 48) * 10 ^ digits.length + digitsValue digits := by
  unfold digitsValue
  rw [List.foldl_cons, foldl_digits, zero_mul, zero_add]
  rfl

theorem digitsValue_append (whole fraction : List UInt8) :
    digitsValue (whole ++ fraction) =
      digitsValue whole * 10 ^ fraction.length + digitsValue fraction := by
  unfold digitsValue
  rw [List.foldl_append, foldl_digits]
  rfl

/-- The digits before the point, as they are summed. -/
theorem foldl_whole (digits : List UInt8) :
    digits.foldl (fun (value : K) d => value * 10 + digitValue d) 0 = (digitsValue digits : K) := by
  have hfrom (n : ℕ) : digits.foldl (fun (value : K) d => value * 10 + digitValue d) (n : K) =
      ((digits.foldl (fun value d => value * 10 + (d.toNat - 48)) n : ℕ) : K) := by
    induction digits generalizing n with
    | nil => rfl
    | cons d digits ih =>
      rw [List.foldl_cons, List.foldl_cons, ← ih]
      congr 1
      unfold digitValue
      push_cast
      rfl
  have hzero := hfrom 0
  rw [Nat.cast_zero] at hzero
  exact hzero

variable [CharZero K]

/-- The digits behind the point, as they are summed. -/
theorem foldl_fraction (digits : List UInt8) (value scale : K) :
    (digits.foldl (fun (value, scale) d =>
      (value + digitValue d * scale, scale * (1 / 10))) (value, scale)).1 =
        value + scale * 10 * ((digitsValue digits : K) / 10 ^ digits.length) := by
  have hten : (10 : K) ≠ 0 := by norm_num
  induction digits generalizing value scale with
  | nil => simp [digitsValue]
  | cons d digits ih =>
    rw [List.foldl_cons, ih, digitsValue_cons, List.length_cons, pow_succ]
    unfold digitValue
    push_cast
    field_simp
    ring

theorem takeWhile_append_of_head {p : UInt8 → Bool} {digits rest : List UInt8}
    (hdigits : ∀ d ∈ digits, p d = true) (hrest : ∀ b ∈ rest.head?, p b = false) :
    (digits ++ rest).takeWhile p = digits ∧ (digits ++ rest).dropWhile p = rest := by
  induction digits with
  | nil =>
    cases rest with
    | nil => exact ⟨rfl, rfl⟩
    | cons b rest =>
      have hb : p b = false := hrest b rfl
      simp [hb]
  | cons d digits ih =>
    have hd := hdigits d List.mem_cons_self
    obtain ⟨htake, hdrop⟩ := ih fun d' hd' => hdigits d' (List.mem_cons_of_mem d hd')
    simp [hd, htake, hdrop]

theorem forall_mem_takeWhile {p : UInt8 → Bool} (bytes : List UInt8) :
    ∀ b ∈ bytes.takeWhile p, p b = true :=
  fun _ hb => List.mem_takeWhile_imp hb

/-- The value of digits around a point, as it is summed. -/
theorem point_value (whole fraction : List UInt8) :
    (fraction.foldl (fun (value, scale) d =>
        (value + digitValue d * scale, scale * (1 / 10)))
          (whole.foldl (fun (value : K) d => value * 10 + digitValue d) 0, (1 / 10 : K))).1 =
      (digitsValue (whole ++ fraction) : K) / 10 ^ fraction.length := by
  have hten : (10 : K) ≠ 0 := by norm_num
  rw [foldl_fraction, foldl_whole, digitsValue_append]
  push_cast
  field_simp

/-- A decimal is read behind its sign. -/
def readDecimal (negative : Bool) (rest : List UInt8) : Except GcodeError K :=
  let digits := rest.takeWhile isAsciiDigit
  let intPart : K := digits.foldl (fun value d => value * 10 + digitValue d) 0
  let (value, sawDigit, rest) : K × Bool × List UInt8 := match rest.dropWhile isAsciiDigit with
    | [] => (intPart, digits != [], [])
    | b :: rest =>
      if b = '.'.toUInt8 then
        let fraction := rest.takeWhile isAsciiDigit
        let value := (fraction.foldl (fun (value, scale) d =>
          (value + digitValue d * scale, scale * (1 / 10))) (intPart, (1 / 10 : K))).1
        (value, digits != [] || fraction != [], rest.dropWhile isAsciiDigit)
      else (intPart, digits != [], b :: rest)
  if !sawDigit || rest != [] then .error .badNumberFormat
  else .ok (if negative then -value else value)

omit [CharZero K] in
theorem parseF32_cons (b : UInt8) (rest : List UInt8) :
    parseF32 (K := K) (b :: rest) =
      if isSign b then readDecimal (decide (b = '-'.toUInt8)) rest
      else readDecimal false (b :: rest) := by
  unfold parseF32
  by_cases hb : isSign b = true
  · rw [if_pos hb]
    dsimp only
    rw [if_pos hb]
    rfl
  · rw [if_neg hb]
    dsimp only
    rw [if_neg hb]
    rfl

omit [CharZero K] in
/-- Digits alone are read as their number. -/
theorem readDecimal_whole (negative : Bool) {digits : List UInt8} (hne : digits ≠ [])
    (h : ∀ d ∈ digits, isAsciiDigit d = true) :
    readDecimal (K := K) negative digits =
      .ok (if negative then -(digitsValue digits : K) else (digitsValue digits : K)) := by
  have htake : digits.takeWhile isAsciiDigit = digits := List.takeWhile_eq_self_iff.2 h
  have hdrop : digits.dropWhile isAsciiDigit = [] := List.dropWhile_eq_nil_iff.2 h
  unfold readDecimal
  rw [htake, hdrop]
  dsimp only
  rw [foldl_whole, if_neg]
  simpa using hne

/-- Digits around a point are read as their decimal. -/
theorem readDecimal_point (negative : Bool) {whole fraction : List UInt8}
    (hne : whole ≠ [] ∨ fraction ≠ []) (hwhole : ∀ d ∈ whole, isAsciiDigit d = true)
    (hfraction : ∀ d ∈ fraction, isAsciiDigit d = true) :
    readDecimal (K := K) negative (whole ++ '.'.toUInt8 :: fraction) =
      .ok (if negative then -((digitsValue (whole ++ fraction) : K) / 10 ^ fraction.length)
        else (digitsValue (whole ++ fraction) : K) / 10 ^ fraction.length) := by
  have hpoint : ∀ b ∈ ('.'.toUInt8 :: fraction).head?, isAsciiDigit b = false := by
    rintro b ⟨⟩
    decide
  obtain ⟨htake, hdrop⟩ := takeWhile_append_of_head hwhole hpoint
  have htake' : fraction.takeWhile isAsciiDigit = fraction := List.takeWhile_eq_self_iff.2 hfraction
  have hdrop' : fraction.dropWhile isAsciiDigit = [] := List.dropWhile_eq_nil_iff.2 hfraction
  unfold readDecimal
  rw [htake, hdrop]
  dsimp only
  rw [if_pos rfl, htake', hdrop']
  dsimp only
  rw [point_value, if_neg]
  simpa [bne_iff_ne, imp_iff_not_or] using hne

/-- What is read behind a sign is a decimal. -/
theorem decimal_of_readDecimal {negative : Bool} {rest : List UInt8} {v : K}
    (h : readDecimal negative rest = .ok v) :
    ∃ m, Decimal rest m ∧ v = if negative then -m else m := by
  have hrest := List.takeWhile_append_dropWhile (p := isAsciiDigit) (l := rest)
  have hdigits := forall_mem_takeWhile (p := isAsciiDigit) rest
  cases hdrop : rest.dropWhile isAsciiDigit with
  | nil =>
    rw [hdrop, List.append_nil] at hrest
    rw [hrest] at hdigits
    cases rest with
    | nil => cases h
    | cons d digits =>
      rw [readDecimal_whole negative (List.cons_ne_nil d digits) hdigits] at h
      exact ⟨_, .whole (List.cons_ne_nil d digits) hdigits, (Except.ok.inj h).symm⟩
  | cons b tail =>
    by_cases hboth : b = '.'.toUInt8 ∧ tail.dropWhile isAsciiDigit = [] ∧
        (rest.takeWhile isAsciiDigit ≠ [] ∨ tail ≠ [])
    · obtain ⟨rfl, hlast, hne⟩ := hboth
      have hfraction := List.dropWhile_eq_nil_iff.1 hlast
      rw [hdrop] at hrest
      rw [← hrest, readDecimal_point negative hne hdigits hfraction] at h
      rw [← hrest]
      exact ⟨_, .point hne hdigits hfraction, (Except.ok.inj h).symm⟩
    · -- something is left behind the number, or there is no digit
      unfold readDecimal at h
      rw [hdrop] at h
      dsimp only at h
      by_cases hb : b = '.'.toUInt8
      · rw [if_pos hb] at h
        dsimp only at h
        rw [if_pos] at h
        · cases h
        · rw [Bool.or_eq_true, bne_iff_ne, Bool.not_eq_true', Bool.or_eq_false_iff, bne_eq_false_iff_eq,
            bne_eq_false_iff_eq]
          by_contra hnone
          rw [not_or, not_and_or, not_not] at hnone
          obtain ⟨hne, hlast⟩ := hnone
          have htail : tail.takeWhile isAsciiDigit = tail :=
            List.takeWhile_eq_self_iff.2 (List.dropWhile_eq_nil_iff.1 hlast)
          rw [htail] at hne
          exact hboth ⟨hb, hlast, hne⟩
      · rw [if_neg hb] at h
        dsimp only at h
        rw [if_pos (by simp)] at h
        cases h

omit [CharZero K] in
/-- A decimal does not begin with a sign. -/
theorem Decimal.cons {text : List UInt8} {v : K} (h : Decimal text v) :
    ∃ b rest, text = b :: rest ∧ isSign b = false := by
  have hdigit : ∀ b : UInt8, isAsciiDigit b = true → isSign b = false := by decide +kernel
  cases h with
  | whole hne hdigits =>
    cases text with
    | nil => exact absurd rfl hne
    | cons b rest => exact ⟨b, rest, rfl, hdigit b (hdigits b List.mem_cons_self)⟩
  | @point whole fraction hne hwhole hfraction =>
    cases whole with
    | nil => exact ⟨_, _, rfl, by decide⟩
    | cons b rest => exact ⟨b, _, rfl, hdigit b (hwhole b List.mem_cons_self)⟩

/-- A decimal is read behind its sign, as what it writes. -/
theorem Decimal.readDecimal {text : List UInt8} {v : K} (h : Decimal text v) (negative : Bool) :
    readDecimal negative text = .ok (if negative then -v else v) := by
  cases h with
  | whole hne hdigits => exact readDecimal_whole negative hne hdigits
  | point hne hwhole hfraction => exact readDecimal_point negative hne hwhole hfraction

/-- The tokens that are read are the numbers, and they are read as what they write. -/
theorem parseF32_eq_ok_iff {token : List UInt8} {v : K} :
    parseF32 token = .ok v ↔ Number token v := by
  constructor
  · intro h
    cases token with
    | nil => cases h
    | cons b rest =>
      rw [parseF32_cons] at h
      by_cases hsign : isSign b = true
      · rw [if_pos hsign] at h
        obtain ⟨m, hm, rfl⟩ := decimal_of_readDecimal h
        unfold isSign at hsign
        rw [Bool.or_eq_true, decide_eq_true_eq, decide_eq_true_eq] at hsign
        rcases hsign with rfl | rfl
        · exact .plus hm
        · exact .minus hm
      · rw [if_neg hsign] at h
        obtain ⟨m, hm, rfl⟩ := decimal_of_readDecimal h
        exact .unsigned hm
  · rintro (hm | hm | hm)
    · obtain ⟨b, rest, rfl, hb⟩ := hm.cons
      rw [parseF32_cons, if_neg (by rw [hb]; exact Bool.false_ne_true)]
      exact hm.readDecimal false
    · rw [parseF32_cons]
      exact hm.readDecimal false
    · rw [parseF32_cons]
      exact hm.readDecimal true

end Reading

/-! ## What is skipped -/

section Skipping

theorem skip_inside {body : List UInt8} (h : ∀ b ∈ body, b ≠ ')'.toUInt8) (rest : List UInt8) :
    skipInsignificant true (body ++ rest) = skipInsignificant true rest := by
  induction body with
  | nil => rfl
  | cons b body ih =>
    have hb : (b != ')'.toUInt8) = true := bne_iff_ne.2 (h b List.mem_cons_self)
    rw [List.cons_append]
    show skipInsignificant (b != ')'.toUInt8) (body ++ rest) = _
    rw [hb, ih fun b' hb' => h b' (List.mem_cons_of_mem b hb')]

theorem skip_open (rest : List UInt8) :
    skipInsignificant false ('('.toUInt8 :: rest) = skipInsignificant true rest := rfl

theorem skip_close (rest : List UInt8) :
    skipInsignificant true (')'.toUInt8 :: rest) = skipInsignificant false rest := rfl

theorem skip_blank {b : UInt8} (hb : isWhitespace b = true) (rest : List UInt8) :
    skipInsignificant false (b :: rest) = skipInsignificant false rest := by
  show (if isWhitespace b = true then _ else _) = _
  rw [if_pos hb]

/-- A gap is skipped. -/
theorem Gap.skip {gap : List UInt8} (h : Gap gap) (rest : List UInt8) :
    skipInsignificant false (gap ++ rest) = skipInsignificant false rest := by
  induction h with
  | nil => rfl
  | blank hb _ ih => rw [List.cons_append, skip_blank hb, ih]
  | comment hbody _ ih =>
    rw [List.cons_append, skip_open, List.append_assoc, skip_inside hbody, List.cons_append,
      skip_close, ih]

/-- The end of a line is skipped. -/
theorem Ending.skip {strict : Bool} {tail : List UInt8} (h : Ending strict tail) :
    skipInsignificant false tail = [] := by
  cases h with
  | nil => rfl
  | semicolon body => rfl
  | unclosed _ hbody =>
    have hinside := skip_inside hbody []
    rw [List.append_nil] at hinside
    rw [skip_open, hinside]
    rfl

/-- A byte that is not skipped. -/
structure Significant (b : UInt8) : Prop where
  /-- It is no blank. -/
  blank : isWhitespace b = false
  /-- It opens no comment to the end of the line. -/
  semicolon : b ≠ ';'.toUInt8
  /-- It opens no comment. -/
  opening : b ≠ '('.toUInt8

theorem Significant.skip {b : UInt8} (h : Significant b) (rest : List UInt8) :
    skipInsignificant false (b :: rest) = b :: rest := by
  show (if isWhitespace b = true then _ else if b = ';'.toUInt8 then _ else
    if b = '('.toUInt8 then _ else _) = _
  rw [h.blank, if_neg Bool.false_ne_true, if_neg h.semicolon, if_neg h.opening]

theorem significant_of_alphabetic {b : UInt8} (h : isAsciiAlphabetic b = true) : Significant b := by
  have hall : ∀ b : UInt8, isAsciiAlphabetic b = true →
      isWhitespace b = false ∧ b ≠ ';'.toUInt8 ∧ b ≠ '('.toUInt8 := by decide +kernel
  obtain ⟨hblank, hsemicolon, hopening⟩ := hall b h
  exact ⟨hblank, hsemicolon, hopening⟩

/-- A comment is closed, or goes on to the end. -/
theorem comment_cases (bytes : List UInt8) :
    (∀ b ∈ bytes, b ≠ ')'.toUInt8) ∨
      ∃ body rest, bytes = body ++ ')'.toUInt8 :: rest ∧ ∀ b ∈ body, b ≠ ')'.toUInt8 := by
  by_cases hmem : ')'.toUInt8 ∈ bytes
  · obtain ⟨body, rest, rfl, hbody⟩ := List.eq_append_cons_of_mem hmem
    exact .inr ⟨body, rest, rfl, fun b hb heq => hbody (heq ▸ hb)⟩
  · exact .inl fun b hb heq => hmem (heq ▸ hb)

/-- Bytes are a gap, and then the end of the line or a byte that is not skipped. -/
theorem exists_gap (bytes : List UInt8) : ∃ gap rest, bytes = gap ++ rest ∧ Gap gap ∧
    (Ending false rest ∨ ∃ b tail, rest = b :: tail ∧ Significant b) := by
  induction hn : bytes.length using Nat.strong_induction_on generalizing bytes with
  | _ n ih =>
    subst hn
    cases bytes with
    | nil => exact ⟨[], [], rfl, .nil, .inl .nil⟩
    | cons b bytes =>
      by_cases hblank : isWhitespace b = true
      · obtain ⟨gap, rest, rfl, hgap, hrest⟩ := ih bytes.length (Nat.lt_succ_self _) bytes rfl
        exact ⟨b :: gap, rest, rfl, .blank hblank hgap, hrest⟩
      by_cases hsemicolon : b = ';'.toUInt8
      · rw [hsemicolon]
        exact ⟨[], _, rfl, .nil, .inl (.semicolon bytes)⟩
      by_cases hopening : b = '('.toUInt8
      · rw [hopening]
        rcases comment_cases bytes with hopen | ⟨body, after, rfl, hbody⟩
        · exact ⟨[], _, rfl, .nil, .inl (.unclosed rfl hopen)⟩
        · have hlt : after.length < ('('.toUInt8 :: (body ++ ')'.toUInt8 :: after)).length := by
            simp only [List.length_cons, List.length_append]
            omega
          obtain ⟨gap, rest, rfl, hgap, hrest⟩ := ih after.length hlt after rfl
          refine ⟨'('.toUInt8 :: (body ++ ')'.toUInt8 :: gap), rest, ?_, .comment hbody hgap, hrest⟩
          simp
      · exact ⟨[], _, rfl, .nil, .inr ⟨b, bytes, rfl, Bool.eq_false_iff.2 hblank, hsemicolon,
          hopening⟩⟩

end Skipping

/-! ## The words of a line -/

section Words

/-- A byte of a number, behind its sign. -/
def inNumber (b : UInt8) : Bool := isAsciiDigit b || b = '.'.toUInt8

theorem inNumber_of_isAsciiDigit {b : UInt8} (h : isAsciiDigit b = true) : inNumber b = true := by
  rw [inNumber, h, Bool.true_or]

omit [Field K] in
theorem Decimal.inNumber [Field K] {text : List UInt8} {v : K} (h : Decimal text v) :
    ∀ b ∈ text, inNumber b = true := by
  cases h with
  | whole hne hdigits => exact fun b hb => inNumber_of_isAsciiDigit (hdigits b hb)
  | point hne hwhole hfraction =>
    intro b hb
    rcases List.mem_append.1 hb with hb | hb
    · exact inNumber_of_isAsciiDigit (hwhole b hb)
    rcases List.mem_cons.1 hb with rfl | hb
    · decide
    · exact inNumber_of_isAsciiDigit (hfraction b hb)

theorem advanceOverNumber_cons (b : UInt8) (rest : List UInt8) :
    advanceOverNumber (b :: rest) =
      if isSign b then (b :: rest.takeWhile inNumber, rest.dropWhile inNumber)
      else ((b :: rest).takeWhile inNumber, (b :: rest).dropWhile inNumber) := rfl

/-- A number is taken whole. -/
theorem Number.advance {token rest : List UInt8} {v : K} (h : Number token v)
    (hrest : ∀ b ∈ rest.head?, Grammar.inNumber b = false) :
    advanceOverNumber (token ++ rest) = (token, rest) := by
  cases h with
  | unsigned h =>
    obtain ⟨b, text, rfl, hb⟩ := h.cons
    obtain ⟨htake, hdrop⟩ := takeWhile_append_of_head h.inNumber hrest
    rw [List.cons_append] at htake hdrop ⊢
    rw [advanceOverNumber_cons, hb, if_neg Bool.false_ne_true, htake, hdrop]
  | plus h =>
    have hsign : isSign '+'.toUInt8 = true := by decide
    obtain ⟨htake, hdrop⟩ := takeWhile_append_of_head h.inNumber hrest
    rw [List.cons_append, advanceOverNumber_cons, if_pos hsign, htake, hdrop]
  | minus h =>
    have hsign : isSign '-'.toUInt8 = true := by decide
    obtain ⟨htake, hdrop⟩ := takeWhile_append_of_head h.inNumber hrest
    rw [List.cons_append, advanceOverNumber_cons, if_pos hsign, htake, hdrop]

/-- What is taken of a text, and what is left, make up the text. -/
theorem advanceOverNumber_append (bytes : List UInt8) :
    (advanceOverNumber bytes).1 ++ (advanceOverNumber bytes).2 = bytes := by
  cases bytes with
  | nil => rfl
  | cons b rest =>
    rw [advanceOverNumber_cons]
    by_cases hb : isSign b = true
    · rw [if_pos hb, List.cons_append, List.takeWhile_append_dropWhile]
    · rw [if_neg hb, List.takeWhile_append_dropWhile]

theorem Number.ne_nil {token : List UInt8} {v : K} (h : Number token v) : token ≠ [] := by
  cases h with
  | unsigned h =>
    obtain ⟨b, text, rfl, -⟩ := h.cons
    exact List.cons_ne_nil b text
  | plus h => exact List.cons_ne_nil _ _
  | minus h => exact List.cons_ne_nil _ _

/-- A number does not begin with a blank. -/
theorem Number.head {token : List UInt8} {v : K} (h : Number token v) :
    ∀ b ∈ token.head?, isInnerBlank b = false := by
  have hnumber : ∀ b : UInt8, Grammar.inNumber b = true → isInnerBlank b = false := by
    decide +kernel
  cases h with
  | unsigned h =>
    exact fun b hb => hnumber b (h.inNumber b (List.mem_of_mem_head? hb))
  | plus h =>
    rintro b ⟨⟩
    decide
  | minus h =>
    rintro b ⟨⟩
    decide

variable [CharZero K]

/-- A word that is spelled is read, and what is behind it is left. -/
theorem nextWord_of_spelled {strict : Bool} {gap text rest : List UInt8} {word : Word K}
    (hgap : Gap gap) (htext : Spelled strict text word)
    (hrest : ∀ b ∈ rest.head?, inNumber b = false) :
    nextWord (gap ++ (text ++ rest)) = some (.ok word, rest) := by
  obtain ⟨letter, blanks, token, rfl, hletter, hupper, hblanks, -, hnumber⟩ := htext.parts
  have hskip : skipInsignificant false (gap ++ (letter :: (blanks ++ token) ++ rest)) =
      letter :: (blanks ++ (token ++ rest)) := by
    rw [hgap.skip, List.cons_append, List.append_assoc,
      (significant_of_alphabetic hletter).skip]
  have hhead : ∀ b ∈ (token ++ rest).head?, isInnerBlank b = false := by
    rw [List.head?_append_of_ne_nil _ hnumber.ne_nil]
    exact hnumber.head
  have hdrop : (blanks ++ (token ++ rest)).dropWhile (fun b => b = 32 || b = 9) = token ++ rest :=
    (takeWhile_append_of_head (p := isInnerBlank) hblanks hhead).2
  unfold nextWord
  rw [hskip]
  dsimp only
  rw [if_neg (by rw [hletter]; decide), hdrop, hnumber.advance hrest]
  dsimp only
  rw [if_neg hnumber.ne_nil, parseF32_eq_ok_iff.2 hnumber, hupper]

/-- A word that is read is spelled, behind a gap and before what is left. -/
theorem spelled_of_nextWord {bytes rest : List UInt8} {word : Word K}
    (h : nextWord bytes = some (.ok word, rest)) :
    ∃ gap text, bytes = gap ++ (text ++ rest) ∧ Gap gap ∧ Spelled false text word := by
  obtain ⟨gap, after, rfl, hgap, hend | ⟨letter, tail, rfl, hsignificant⟩⟩ := exists_gap bytes
  · unfold nextWord at h
    rw [hgap.skip, hend.skip] at h
    cases h
  · unfold nextWord at h
    rw [hgap.skip, hsignificant.skip] at h
    dsimp only at h
    split at h
    · cases h
    next hletter =>
    split at h
    · cases h
    next hne =>
    split at h
    next value hparse =>
      obtain ⟨hword, rfl⟩ := Prod.mk.inj (Option.some.inj h)
      cases hword
      have hsplit : tail.takeWhile isInnerBlank ++
          ((advanceOverNumber (tail.dropWhile isInnerBlank)).1 ++
            (advanceOverNumber (tail.dropWhile isInnerBlank)).2) = tail := by
        rw [advanceOverNumber_append, List.takeWhile_append_dropWhile]
      refine ⟨gap, letter :: (tail.takeWhile isInnerBlank ++
        (advanceOverNumber (tail.dropWhile isInnerBlank)).1), ?_, hgap, ?_⟩
      · rw [List.cons_append, List.append_assoc]
        exact congrArg (fun text => gap ++ letter :: text) hsplit.symm
      · exact ⟨letter, _, _, rfl, by simpa using hletter, rfl, forall_mem_takeWhile tail,
          fun hstrict => absurd hstrict Bool.false_ne_true,
          parseF32_eq_ok_iff.1 hparse⟩
    · cases h

omit [CharZero K] in
/-- A line does not go on with a digit or a point. -/
theorem Line.head {strict : Bool} {line : List UInt8} {words : List (Word K)}
    (h : Line strict line words) : ∀ b ∈ line.head?, inNumber b = false := by
  have hblank : ∀ b : UInt8, isWhitespace b = true → inNumber b = false := by decide +kernel
  have hletter : ∀ b : UInt8, isAsciiAlphabetic b = true → inNumber b = false := by decide +kernel
  have hgap {gap rest : List UInt8} (hgap : Gap gap)
      (hrest : ∀ b ∈ rest.head?, inNumber b = false) :
      ∀ b ∈ (gap ++ rest).head?, inNumber b = false := by
    cases hgap with
    | nil => exact hrest
    | blank hb _ =>
      rintro b ⟨⟩
      exact hblank _ hb
    | comment _ _ =>
      rintro b ⟨⟩
      decide
  cases h with
  | ending hg htail =>
    refine hgap hg ?_
    cases htail with
    | nil => simp
    | semicolon body =>
      rintro b ⟨⟩
      decide
    | unclosed _ _ =>
      rintro b ⟨⟩
      decide
  | word hg htext _ =>
    refine hgap hg ?_
    obtain ⟨letter, blanks, token, rfl, hl, -⟩ := htext.parts
    rintro b ⟨⟩
    exact hletter _ hl

/-- The words of a line that spells words are read from it. -/
theorem Line.words {strict : Bool} {line : List UInt8} {words : List (Word K)}
    (h : Line strict line words) : Lexer.words line = words.map .ok := by
  induction h with
  | ending hgap htail =>
    have hskip : skipInsignificant false (_ ++ _) = [] := (hgap.skip _).trans htail.skip
    rw [words_eq]
    unfold nextWord
    rw [hskip]
    rfl
  | word hgap htext hrest ih =>
    rw [words_eq, nextWord_of_spelled hgap htext hrest.head]
    dsimp only
    rw [ih, List.map_cons]

omit [CharZero K] in
/-- Where no word is left, there is a gap and the end of the line. -/
theorem ending_of_nextWord {bytes : List UInt8} (h : nextWord (K := K) bytes = none) :
    ∃ gap tail, bytes = gap ++ tail ∧ Gap gap ∧ Ending false tail := by
  obtain ⟨gap, rest, rfl, hgap, hend | ⟨letter, tail, rfl, hsignificant⟩⟩ := exists_gap bytes
  · exact ⟨gap, rest, rfl, hgap, hend⟩
  · unfold nextWord at h
    rw [hgap.skip, hsignificant.skip] at h
    dsimp only at h
    split at h
    · cases h
    split at h
    · cases h
    split at h
    · cases h
    · cases h

/-- A line that the lexer finds no fault with spells the words that are read. -/
theorem line_of_words {line : List UInt8} {words : List (Word K)}
    (h : Lexer.words line = words.map .ok) : Line false line words := by
  induction words generalizing line with
  | nil =>
    cases hnext : nextWord (K := K) line with
    | none =>
      obtain ⟨gap, tail, rfl, hgap, htail⟩ := ending_of_nextWord hnext
      exact .ending hgap htail
    | some next =>
      obtain ⟨result, rest⟩ := next
      rw [words_eq, hnext] at h
      cases result with
      | error e => cases h
      | ok word => cases h
  | cons word words ih =>
    rw [words_eq] at h
    cases hnext : nextWord (K := K) line with
    | none =>
      rw [hnext] at h
      cases h
    | some next =>
      obtain ⟨result, rest⟩ := next
      rw [hnext] at h
      cases result with
      | error e => cases h
      | ok word' =>
        obtain ⟨hword, hwords⟩ := List.cons.inj h
        cases hword
        obtain ⟨gap, text, rfl, hgap, htext⟩ := spelled_of_nextWord hnext
        exact .word hgap htext (ih hwords)

omit [CharZero K] in
/-- Every word of a line is spelled out. -/
theorem Line.exists_spelled {strict : Bool} {line : List UInt8} {words : List (Word K)}
    (h : Line strict line words) : ∀ word ∈ words, ∃ text, Spelled strict text word := by
  induction h with
  | ending => simp
  | @word _ text _ _ _ _ htext _ ih => exact List.forall_mem_cons.mpr ⟨⟨text, htext⟩, ih⟩

omit [CharZero K] in
/-- Words that can be spelled can be written in a line. -/
theorem exists_line {strict : Bool} {words : List (Word K)}
    (h : ∀ word ∈ words, ∃ text, Spelled strict text word) : ∃ line, Line strict line words := by
  induction words with
  | nil => exact ⟨_, .ending .nil .nil⟩
  | cons word words ih =>
    obtain ⟨⟨text, htext⟩, hwords⟩ := List.forall_mem_cons.mp h
    obtain ⟨line, hline⟩ := ih hwords
    exact ⟨_, .word .nil htext hline⟩

/-- The lexer accepts the lines that spell words, and reads the words that they spell. -/
theorem words_eq_iff {line : List UInt8} {words : List (Word K)} :
    Lexer.words line = words.map .ok ↔ Line false line words :=
  ⟨line_of_words, Line.words⟩

end Words

/-! ## Respelling -/

section Respelling

/-- A line written anew: the words keep their letters, but for the case, and their numbers.
What stands between them may be anything that may stand there. -/
inductive Respelled (K : Type) [Field K] : List UInt8 → List UInt8 → Prop
  /-- The end of the line. -/
  | ending {gap gap' tail tail' : List UInt8} (hgap : Gap gap) (hgap' : Gap gap')
    (htail : Ending false tail) (htail' : Ending false tail') :
    Respelled K (gap ++ tail) (gap' ++ tail')
  /-- A word. -/
  | word {gap gap' blanks blanks' token rest rest' : List UInt8} {letter letter' : UInt8} {v : K}
    (hgap : Gap gap) (hgap' : Gap gap') (hletter : isAsciiAlphabetic letter = true)
    (hletter' : isAsciiAlphabetic letter' = true)
    (hcase : toAsciiUppercase letter = toAsciiUppercase letter')
    (hblanks : ∀ b ∈ blanks, isInnerBlank b = true)
    (hblanks' : ∀ b ∈ blanks', isInnerBlank b = true) (htoken : Number token v)
    (hrest : Respelled K rest rest') :
    Respelled K (gap ++ (letter :: (blanks ++ token) ++ rest))
      (gap' ++ (letter' :: (blanks' ++ token) ++ rest'))

/-- A line that is written anew spells the same words. -/
theorem Respelled.line {line line' : List UInt8} (h : Respelled K line line') :
    ∃ words : List (Word K), Line false line words ∧ Line false line' words := by
  have hlenient {blanks : List UInt8} : false = true → blanks = [] :=
    fun hstrict => absurd hstrict Bool.false_ne_true
  induction h with
  | ending hgap hgap' htail htail' => exact ⟨[], .ending hgap htail, .ending hgap' htail'⟩
  | @word _ _ blanks blanks' token _ _ letter letter' v hgap hgap' hletter hletter' hcase hblanks
      hblanks' htoken _ ih =>
    obtain ⟨words, hline, hline'⟩ := ih
    have htext : Spelled false (letter :: (blanks ++ token)) ⟨toAsciiUppercase letter, v⟩ :=
      ⟨letter, blanks, token, rfl, hletter, rfl, hblanks, hlenient, htoken⟩
    have htext' : Spelled false (letter' :: (blanks' ++ token)) ⟨toAsciiUppercase letter, v⟩ :=
      ⟨letter', blanks', token, rfl, hletter', hcase.symm, hblanks', hlenient, htoken⟩
    exact ⟨_, .word hgap htext hline, .word hgap' htext' hline'⟩

variable [CharZero K]

omit [CharZero K] in
/-- How a line of the strict language begins. -/
theorem Line.strict_cons {b : UInt8} {rest line : List UInt8} {words : List (Word K)}
    (h : Line true line words) (hline : line = b :: rest) :
    isWhitespace b = true ∨ b = ';'.toUInt8 ∨ b = '('.toUInt8 ∧ ')'.toUInt8 ∈ rest ∨
      isAsciiAlphabetic b = true ∧ ∀ c ∈ rest.head?, isInnerBlank c = false := by
  have hgap {gap rest' : List UInt8} (hgap : Gap gap) (heq : gap ++ rest' = b :: rest) :
      gap = [] ∨ isWhitespace b = true ∨ b = '('.toUInt8 ∧ ')'.toUInt8 ∈ rest := by
    cases hgap with
    | nil => exact .inl rfl
    | blank hb _ =>
      obtain ⟨rfl, -⟩ := List.cons.inj heq
      exact .inr (.inl hb)
    | comment _ _ =>
      obtain ⟨rfl, rfl⟩ := List.cons.inj heq
      exact .inr (.inr ⟨rfl, by simp⟩)
  cases h with
  | ending hg htail =>
    rcases hgap hg hline with rfl | hblank | hcomment
    · cases htail with
      | nil => cases hline
      | semicolon body => exact .inr (.inl (List.cons.inj hline).1.symm)
      | unclosed hlenient _ => exact absurd hlenient.symm Bool.false_ne_true
    · exact .inl hblank
    · exact .inr (.inr (.inl hcomment))
  | @word _ _ rest' _ _ hg htext _ =>
    rcases hgap hg hline with rfl | hblank | hcomment
    · obtain ⟨letter, blanks, token, rfl, hletter, -, -, hstrict, hnumber⟩ := htext.parts
      obtain rfl := hstrict rfl
      obtain ⟨rfl, rfl⟩ := List.cons.inj hline
      have hhead : ∀ c ∈ (token ++ rest').head?, isInnerBlank c = false := by
        rw [List.head?_append_of_ne_nil _ hnumber.ne_nil]
        exact hnumber.head
      exact .inr (.inr (.inr ⟨hletter, hhead⟩))
    · exact .inl hblank
    · exact .inr (.inr (.inl hcomment))

theorem number_five : Number ['5'.toUInt8] (5 : ℚ) :=
  .unsigned (.whole (List.cons_ne_nil _ _) (by decide +kernel))

end Respelling

end Galdr.Grammar
