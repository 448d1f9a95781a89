import Galdr.ImportLexer
import Galdr.RenderedLines

/-!
# Words on the wire

What the machine reads of a line that the host has printed: words, each a capital letter and a
number (`Spells.words`). A number that the machine and the host both know how to read is read
alike by them, and so the printed decimal is the value of the word.
-/

namespace Galdr

open Import Text Eitri

/-! ## Numbers -/

theorem eq_point_of_inNumber {c : Char} (h : inNumber c = true) (hdigit : ¬c.isDigit = true) :
    c = '.' := by
  unfold inNumber at h
  rw [Bool.or_eq_true, decide_eq_true_iff] at h
  exact h.resolve_left hdigit

/-- The sign of a number is split off. -/
theorem splitSign_number (negative : Bool) {body : List Char} (hne : body ≠ [])
    (hbody : ∀ c ∈ body, inNumber c = true) :
    splitSign (F32.sign negative ++ body) = (negative, body) := by
  cases negative with
  | true => rfl
  | false =>
    cases body with
    | nil => exact absurd rfl hne
    | cons c tail =>
      have hc := hbody c (List.mem_cons_self ..)
      show splitSign (c :: tail) = _
      unfold splitSign
      split
      · rename_i heq
        rw [(List.cons.inj heq).1] at hc
        exact absurd hc (by decide)
      · rename_i heq
        rw [(List.cons.inj heq).1] at hc
        exact absurd hc (by decide)
      · rfl

/-- A number without an exponent: digits, and at most one point among them. -/
theorem digits_of_parseDecimal {body : List Char} (hbody : ∀ c ∈ body, inNumber c = true)
    {m : NNRat} (h : parseDecimal body = some m) :
    body.takeWhile Char.isDigit ≠ [] ∧ body.dropWhile Char.isDigit = []
      ∨ ∃ rest, body.dropWhile Char.isDigit = '.' :: rest ∧ rest.dropWhile Char.isDigit = []
        ∧ (body.takeWhile Char.isDigit ≠ [] ∨ rest.takeWhile Char.isDigit ≠ []) := by
  have hdrop : ∀ c ∈ body.dropWhile Char.isDigit, inNumber c = true := fun c hc =>
    hbody c ((List.dropWhile_suffix _).subset hc)
  have hfirst := List.head?_dropWhile_not Char.isDigit body
  unfold parseDecimal at h
  dsimp only at h
  generalize body.takeWhile Char.isDigit = whole at *
  generalize body.dropWhile Char.isDigit = tail at *
  cases tail with
  | nil =>
    refine .inl ⟨fun hnil => ?_, rfl⟩
    rw [hnil] at h
    cases h
  | cons c rest =>
    have hpoint : c = '.' := eq_point_of_inNumber (hdrop c (List.mem_cons_self ..)) (by simpa using hfirst)
    subst hpoint
    refine .inr ⟨rest, rfl, ?_⟩
    have hsplit : splitFraction ('.' :: rest)
        = (rest.takeWhile Char.isDigit, rest.dropWhile Char.isDigit) := rfl
    rw [hsplit] at h
    dsimp only at h
    have hlast : ∀ c ∈ rest.dropWhile Char.isDigit, inNumber c = true := fun c hc =>
      hdrop c (List.mem_cons_of_mem _ ((List.dropWhile_suffix _).subset hc))
    have hfirst' := List.head?_dropWhile_not Char.isDigit rest
    generalize rest.takeWhile Char.isDigit = fraction at *
    generalize rest.dropWhile Char.isDigit = last at *
    cases last with
    | nil =>
      refine ⟨rfl, ?_⟩
      by_contra hnone
      rw [not_or, not_not, not_not] at hnone
      rw [if_pos hnone] at h
      cases h
    | cons c last =>
      have hc := eq_point_of_inNumber (hlast c (List.mem_cons_self ..)) (by simpa using hfirst')
      subst hc
      dsimp only at h
      rw [if_neg (by decide : ¬('.' = 'e' ∨ '.' = 'E')), ite_self] at h
      cases h

/-- **A number that is read as a decimal is read by the machine**, as the same. -/
theorem parseF32_of_parseF64 {num : List Char} (hnum : NumberText num) {v : ℚ}
    (h : Import.parseF64 num = some v) : parseF32 (utf8 num) = .ok v := by
  suffices hread : ∃ v' : ℚ, parseF32 (utf8 num) = .ok v' by
    obtain ⟨v', hv'⟩ := hread
    have hsame := parseF64_of_parseF32 hv'
    rw [h] at hsame
    rw [hv', Option.some.inj hsame]
  obtain ⟨negative, body, rfl, hne, hbody⟩ := hnum
  obtain ⟨m, hm⟩ : ∃ m, parseDecimal body = some m := by
    unfold Import.parseF64 at h
    rw [splitSign_number negative hne hbody] at h
    obtain ⟨m, hm, -⟩ := Option.map_eq_some_iff.1 h
    exact ⟨m, hm⟩
  unfold parseF32
  split
  rename_i minus rest hsign
  obtain rfl : rest = utf8 body := by
    cases negative with
    | true => exact (Prod.mk.inj hsign).2.symm
    | false =>
      rcases body with _ | ⟨c, tail⟩
      · exact absurd rfl hne
      rcases splitSign_utf8 c tail with ⟨b, hbytes, hb, hsplit⟩ | ⟨b, bs, hbytes, hb, hsplit⟩
      · have hnumber := splitSign_number false hne hbody
        rw [show F32.sign false ++ c :: tail = c :: tail from rfl, hsplit] at hnumber
        exact absurd (congrArg List.length (Prod.mk.inj hnumber).2) (by simp)
      · rw [show F32.sign false ++ c :: tail = c :: tail from rfl, hbytes] at hsign
        dsimp only at hsign
        rw [if_neg (by rw [hb]; exact Bool.false_ne_true)] at hsign
        exact ((Prod.mk.inj hsign).2.symm.trans hbytes.symm)
  dsimp only
  rw [sameTest_isDigit.takeWhile, sameTest_isDigit.dropWhile]
  rcases digits_of_parseDecimal hbody hm with ⟨hwhole, hdrop⟩ | ⟨rest, hdrop, hlast, hdigit⟩
  · have hwhole' : utf8 (body.takeWhile Char.isDigit) ≠ [] := mt utf8_eq_nil_iff.1 hwhole
    have hnil : utf8 [] = [] := rfl
    rw [hdrop, hnil]
    refine ⟨_, if_neg ?_⟩
    show ¬(!(utf8 (body.takeWhile Char.isDigit) != []) || ([] : List UInt8) != []) = true
    rw [bne_iff_ne.2 hwhole']
    decide
  · have hbytes : utf8 ('.' :: rest) = '.'.toUInt8 :: utf8 rest := rfl
    rw [hdrop, hbytes]
    refine ⟨_, if_neg ?_⟩
    dsimp only
    rw [if_pos rfl, sameTest_isDigit.takeWhile, sameTest_isDigit.dropWhile, hlast]
    have hdigit' : (utf8 (body.takeWhile Char.isDigit) != []
        || utf8 (rest.takeWhile Char.isDigit) != []) = true := by
      rw [Bool.or_eq_true, bne_iff_ne, bne_iff_ne]
      exact hdigit.imp (mt utf8_eq_nil_iff.1) (mt utf8_eq_nil_iff.1)
    rw [hdigit']
    show ¬(!true || utf8 [] != []) = true
    decide

/-! ## Words -/

/-- A text spells words: each is a blank, a capital letter, and a number. -/
inductive Spells : List Char → List (Word ℚ) → Prop
  | nil : Spells [] []
  | cons {letter : Char} {num text : List Char} {v : ℚ} {words : List (Word ℚ)}
      (hletter : letter.isUpper = true) (hnum : NumberText num) (hvalue : Import.parseF64 num = some v)
      (h : Spells text words) : Spells (' ' :: letter :: num ++ text) (⟨letter, v⟩ :: words)

namespace Spells

/-- It begins with a blank, if with anything. -/
theorem head {text : List Char} {words : List (Word ℚ)} (h : Spells text words) :
    text.head?.all (fun c => !inNumber c) = true := by
  cases h with
  | nil => rfl
  | cons => rfl

/-- One word. -/
theorem word {letter : Char} {num : List Char} {v : ℚ} (hletter : letter.isUpper = true)
    (hnum : NumberText num) (hvalue : Import.parseF64 num = some v) :
    Spells (' ' :: letter :: num) [⟨letter, v⟩] := by
  have h := Spells.cons hletter hnum hvalue .nil
  rwa [List.append_nil] at h

theorem append {text text' : List Char} {words words' : List (Word ℚ)} (h : Spells text words)
    (h' : Spells text' words') : Spells (text ++ text') (words ++ words') := by
  induction h with
  | nil => exact h'
  | cons hletter hnum hvalue _ ih =>
    rw [List.append_assoc]
    exact .cons hletter hnum hvalue ih

end Spells

theorem upper_ascii : ∀ n < 128, (Char.ofNat n).isUpper = true →
    String.utf8EncodeChar (Char.ofNat n) = [UInt8.ofNat n]
      ∧ Lexer.isAsciiAlphabetic (UInt8.ofNat n) = true
      ∧ Lexer.toAsciiUppercase (UInt8.ofNat n) = Char.ofNat n
      ∧ Lexer.isWhitespace (UInt8.ofNat n) = false
      ∧ UInt8.ofNat n ≠ ';'.toUInt8 ∧ UInt8.ofNat n ≠ '('.toUInt8 := by
  decide

/-- A capital letter is one byte. -/
theorem exists_byte_of_isUpper {c : Char} (h : c.isUpper = true) :
    ∃ b, String.utf8EncodeChar c = [b] ∧ Lexer.isAsciiAlphabetic b = true
      ∧ Lexer.toAsciiUppercase b = c
      ∧ ∀ bytes, Lexer.skipInsignificant false (b :: bytes) = b :: bytes := by
  have hascii : c.toNat < 128 := by
    have hle : c.val ≤ 90 := by
      unfold Char.isUpper at h
      exact (of_decide_eq_true h).2
    have hnat : c.toNat ≤ 90 := UInt32.le_iff_toNat_le.1 hle
    omega
  have hspec := upper_ascii c.toNat hascii
  rw [Char.ofNat_toNat] at hspec
  obtain ⟨hencode, halpha, hupper, hspace, hsemicolon, hparen⟩ := hspec h
  refine ⟨_, hencode, halpha, hupper, fun bytes => ?_⟩
  unfold Lexer.skipInsignificant
  rw [if_neg Bool.false_ne_true, if_neg (by rw [hspace]; exact Bool.false_ne_true),
    if_neg hsemicolon, if_neg hparen]

theorem numberText_ne_nil {num : List Char} (h : NumberText num) : num ≠ [] := by
  obtain ⟨negative, body, rfl, hne, -⟩ := h
  exact List.append_ne_nil_of_right_ne_nil _ hne

/-- A number does not begin with a blank. -/
theorem dropWhile_isBlank_number {num : List Char} (hnum : NumberText num) (text : List Char) :
    (num ++ text).dropWhile isBlank = num ++ text := by
  have hwhite : (num ++ text).dropWhile isWhitespace = num ++ text := dropWhile_number hnum
  cases hsplit : num ++ text with
  | nil => rfl
  | cons c rest =>
    rw [hsplit] at hwhite
    have hc : isWhitespace c = false := by
      by_contra hc
      rw [List.dropWhile_cons_of_pos (eq_true_of_ne_false hc)] at hwhite
      have hlength := (List.dropWhile_suffix isWhitespace (l := rest)).length_le
      rw [hwhite, List.length_cons] at hlength
      omega
    have hblank : isBlank c = false := by
      by_contra hblank
      have hspace := isWhitespace_of_isSpace (isSpace_of_isBlank (eq_true_of_ne_false hblank))
      rw [hc] at hspace
      cases hspace
    exact List.dropWhile_cons_of_neg (by rw [hblank]; exact Bool.false_ne_true)

namespace Spells

/-- **The machine reads the words that a text spells.** -/
theorem words {text : List Char} {words : List (Word ℚ)} (h : Spells text words) :
    Lexer.words (utf8 text) = words.map .ok := by
  induction h with
  | nil => rfl
  | @cons letter num text v words hletter hnum hvalue h ih =>
    obtain ⟨b, hencode, halpha, hupper, hskip⟩ := exists_byte_of_isUpper hletter
    have hbytes : utf8 (' ' :: letter :: num ++ text) = 32 :: b :: utf8 (num ++ text) := by
      show utf8 (' ' :: (letter :: (num ++ text))) = _
      rw [utf8_cons, utf8_cons, hencode]
      rfl
    have hnext : Lexer.nextWord (b :: utf8 (num ++ text)) = some (.ok ⟨letter, v⟩, utf8 text) := by
      unfold Lexer.nextWord
      rw [hskip]
      dsimp only
      rw [halpha, sameTest_isBlank.dropWhile, dropWhile_isBlank_number hnum, advanceOverNumber_utf8,
        splitNumber_append hnum h.head, hupper]
      dsimp only
      rw [if_neg (by decide), if_neg (mt utf8_eq_nil_iff.1 (numberText_ne_nil hnum)),
        parseF32_of_parseF64 hnum hvalue]
    have hblank : Lexer.words (K := ℚ) (32 :: b :: utf8 (num ++ text))
        = Lexer.words (b :: utf8 (num ++ text)) := words_congr rfl
    rw [hbytes, hblank, Lexer.words_eq, hnext]
    exact congrArg _ ih

/-- Nor does the blank before the first word matter. -/
theorem words_tail {text : List Char} {words : List (Word ℚ)} (h : Spells (' ' :: text) words) :
    Lexer.words (utf8 text) = words.map .ok := by
  rw [← h.words]
  exact words_congr rfl

end Spells

/-! ## Printed numbers -/

/-- A letter and a whole number. -/
theorem spells_code {letter : Char} (hletter : letter.isUpper = true) (n : ℕ) :
    Spells (' ' :: letter :: Nat.toDigits 10 n) [⟨letter, n⟩] :=
  .word hletter (numberText_toDigits false n) (parseF64_toDigits false n)

/-- What a value is printed as, halves to even. -/
def printedEven (count : ℕ) (value : ℚ) : ℚ :=
  let n := (Binary32.halfEven |value * 10 ^ count|).natAbs
  if value < 0 then -((n : ℚ) / 10 ^ count) else (n : ℚ) / 10 ^ count

/-- A letter and a number of so many decimals. -/
theorem spells_fixed {letter : Char} (hletter : letter.isUpper = true) (value : ℚ) (count : ℕ) :
    Spells (' ' :: letter :: formatFixed value count) [⟨letter, printedEven count value⟩] := by
  refine .word hletter (numberText_fixed _ _ _) ?_
  unfold formatFixed printedEven
  rw [parseF64_fixed]
  dsimp only
  by_cases h : value < 0
  · rw [decide_eq_true h, if_pos rfl, if_pos h]
  · rw [decide_eq_false h, if_neg Bool.false_ne_true, if_neg h]

/-- A printed value is within half of its last decimal. -/
theorem abs_printedEven_sub_le (count : ℕ) (value : ℚ) :
    |printedEven count value - value| ≤ 1 / 2 / 10 ^ count := by
  have hpow : (0 : ℚ) < 10 ^ count := by positivity
  have hround := Binary32.abs_sub_halfEven_le |value * 10 ^ count|
  have hnonneg : 0 ≤ Binary32.halfEven |value * 10 ^ count| := by
    by_contra hneg
    have hle : (Binary32.halfEven |value * 10 ^ count| : ℚ) ≤ -1 := by
      exact_mod_cast Int.le_sub_one_of_lt (not_le.1 hneg)
    have hhalf := (le_abs_self _).trans hround
    have habs := abs_nonneg (value * 10 ^ count)
    linarith
  have hcast : ((Binary32.halfEven |value * 10 ^ count|).natAbs : ℚ)
      = Binary32.halfEven |value * 10 ^ count| := by
    rw [← Int.cast_natCast, Int.natAbs_of_nonneg hnonneg]
  have habs : |value * 10 ^ count| = |value| * 10 ^ count := by rw [abs_mul, abs_of_pos hpow]
  rw [habs] at hround hcast
  have hscale : |printedEven count value - value| * 10 ^ count
      = abs (|value| * 10 ^ count - Binary32.halfEven (|value| * 10 ^ count)) := by
    rw [← abs_of_pos hpow, ← abs_mul, abs_of_pos hpow]
    unfold printedEven
    dsimp only
    rw [habs, hcast]
    by_cases hneg : value < 0
    · rw [if_pos hneg, abs_of_neg hneg]
      congr 1
      field_simp
      ring
    · rw [if_neg hneg, abs_of_nonneg (not_lt.1 hneg), abs_sub_comm]
      congr 1
      field_simp
  rw [le_div_iff₀ hpow, hscale]
  exact hround

end Galdr
