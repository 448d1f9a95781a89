import Galdr.CutPolylines
import Galdr.ImportLexer
import Galdr.Postprocessor

/-!
# Reading a rendered program

What the import reads of a program that a postprocessor rendered: every line is a list of words,
each a letter and a number, or a comment. A number is read as the decimal that it was printed as
(`parseF64_signedFixed`), and so a straight move is read as the move to the point of the grid
that its axes were rounded to (`importGcode_render`).
-/

namespace Galdr.Eitri

open Import Text

/-! ## Numbers -/

/-- What a value is printed as. -/
def printed (decimals : ℕ) (value : ℚ) : ℚ := roundf (value * 10 ^ decimals) / 10 ^ decimals

/-- The text of a number: digits and points, behind a sign. -/
def NumberText (num : List Char) : Prop :=
  ∃ negative body, num = F32.sign negative ++ body ∧ body ≠ [] ∧ ∀ c ∈ body, inNumber c = true

theorem inNumber_of_isDigit {c : Char} (h : c.isDigit = true) : inNumber c = true := by
  unfold inNumber
  rw [h]
  rfl

theorem not_isWhitespace_of_inNumber {c : Char} (h : inNumber c = true) : isWhitespace c = false := by
  unfold inNumber at h
  rw [Bool.or_eq_true, decide_eq_true_iff] at h
  rcases h with h | rfl
  · exact isWhitespace_of_isDigit h
  · rfl

theorem numberText_fixed (negative : Bool) (count n : ℕ) :
    NumberText (F32.sign negative ++ fixed count n) := by
  obtain ⟨c, rest, hfixed, -⟩ := F32.exists_fixed_eq_cons count n
  refine ⟨negative, _, rfl, by rw [hfixed]; exact List.cons_ne_nil _ _, fun c hc => ?_⟩
  unfold fixed at hc
  rcases List.mem_append.1 hc with hc | hc
  · exact inNumber_of_isDigit (isDigit_of_mem_toDigits hc)
  · rcases List.mem_cons.1 hc with rfl | hc
    · rfl
    · exact inNumber_of_isDigit (isDigit_of_mem_decimals hc)

theorem numberText_toDigits (negative : Bool) (n : ℕ) :
    NumberText (F32.sign negative ++ Nat.toDigits 10 n) :=
  ⟨negative, _, rfl, Nat.toDigits_ne_nil, fun _ hc => inNumber_of_isDigit (isDigit_of_mem_toDigits hc)⟩

/-- The number of a word goes up to the next blank. -/
theorem splitNumber_append {num rest : List Char} (hnum : NumberText num)
    (hrest : rest.head?.all (fun c => !inNumber c) = true) :
    splitNumber (num ++ rest) = (num, rest) := by
  obtain ⟨negative, body, rfl, hne, hbody⟩ := hnum
  have htake : (body ++ rest).takeWhile inNumber = body := by
    rw [List.takeWhile_append_of_pos hbody]
    cases rest with
    | nil => exact List.append_nil _
    | cons c rest =>
      have hc : inNumber c = false := by simpa using hrest
      rw [List.takeWhile_cons_of_neg (by rw [hc]; exact Bool.false_ne_true), List.append_nil]
  have hdrop : (body ++ rest).dropWhile inNumber = rest := by
    rw [List.dropWhile_append_of_pos hbody]
    cases rest with
    | nil => rfl
    | cons c rest =>
      have hc : inNumber c = false := by simpa using hrest
      rw [List.dropWhile_cons_of_neg (by rw [hc]; exact Bool.false_ne_true)]
  cases negative with
  | true =>
    show splitNumber ('-' :: (body ++ rest)) = ('-' :: body, rest)
    unfold splitNumber
    dsimp only
    rw [if_pos (by decide), htake, hdrop]
  | false =>
    show splitNumber (body ++ rest) = (body, rest)
    cases body with
    | nil => exact absurd rfl hne
    | cons c body =>
      have hc : inNumber c = true := hbody c (List.mem_cons_self ..)
      have hsign : ¬ (decide (c = '+') || decide (c = '-')) = true := by
        rw [Bool.or_eq_true, decide_eq_true_iff, decide_eq_true_iff]
        rintro (rfl | rfl)
        · exact absurd hc (by decide)
        · exact absurd hc (by decide)
      rw [List.cons_append] at htake hdrop ⊢
      unfold splitNumber
      dsimp only
      rw [if_neg hsign, htake, hdrop]

theorem parseDecimal_toDigits (n : ℕ) : parseDecimal (Nat.toDigits 10 n) = some (n : NNRat) := by
  have hdigits : ∀ c ∈ Nat.toDigits 10 n, c.isDigit = true := fun c => isDigit_of_mem_toDigits
  have htake : (Nat.toDigits 10 n).takeWhile Char.isDigit = Nat.toDigits 10 n :=
    List.takeWhile_eq_self_iff.2 hdigits
  have hdrop : (Nat.toDigits 10 n).dropWhile Char.isDigit = [] :=
    List.dropWhile_eq_nil_iff.2 hdigits
  unfold parseDecimal
  rw [htake, hdrop]
  simp only [splitFraction, Nat.toDigits_ne_nil, false_and, if_false, decimalValue, List.append_nil,
    Nat.ofDigitChars_ten_toDigits, List.length_nil, Nat.cast_zero, sub_zero, zpow_zero, mul_one]

/-- A number behind a sign. -/
theorem parseF64_sign {negative : Bool} {c : Char} {rest : List Char} {m : NNRat}
    (hc : c.isDigit = true) (h : parseDecimal (c :: rest) = some m) :
    (Import.parseF64 (F32.sign negative ++ c :: rest) : Option ℚ)
      = some (if negative then -(m : ℚ) else m) := by
  unfold Import.parseF64
  rw [F32.splitSign_sign_append hc]
  dsimp only
  rw [h]
  rfl

theorem parseF64_fixed (negative : Bool) (count n : ℕ) :
    (Import.parseF64 (F32.sign negative ++ fixed count n) : Option ℚ)
      = some (if negative then -((n : ℚ) / 10 ^ count) else (n : ℚ) / 10 ^ count) := by
  obtain ⟨c, rest, hfixed, hc⟩ := F32.exists_fixed_eq_cons count n
  have hparse := parseDecimal_fixed count n
  rw [hfixed] at hparse ⊢
  rw [parseF64_sign hc hparse]
  push_cast
  rfl

/-- **A number is read as it was printed.** -/
theorem parseF64_signedFixed (decimals : ℕ) (n : ℤ) :
    (Import.parseF64 (signedFixed decimals n) : Option ℚ) = some ((n : ℚ) / 10 ^ decimals) := by
  unfold signedFixed
  rw [parseF64_fixed]
  by_cases hn : n < 0
  · have habs : (n.natAbs : ℚ) = -(n : ℚ) := by
      rw [← Int.cast_natCast, Int.ofNat_natAbs_of_nonpos hn.le, Int.cast_neg]
    rw [decide_eq_true hn, if_pos rfl, habs, neg_div, neg_neg]
  · have habs : (n.natAbs : ℚ) = n := by
      rw [← Int.cast_natCast, Int.natAbs_of_nonneg (not_lt.1 hn)]
    rw [decide_eq_false hn, if_neg Bool.false_ne_true, habs]

theorem parseF64_toDigits (negative : Bool) (n : ℕ) :
    (Import.parseF64 (F32.sign negative ++ Nat.toDigits 10 n) : Option ℚ)
      = some (if negative then -(n : ℚ) else n) := by
  have hdigits := parseDecimal_toDigits n
  cases htext : Nat.toDigits 10 n with
  | nil => exact absurd htext Nat.toDigits_ne_nil
  | cons c rest =>
    have hc : c.isDigit = true :=
      isDigit_of_mem_toDigits (by rw [htext]; exact List.mem_cons_self ..)
    rw [htext] at hdigits
    rw [parseF64_sign hc hdigits]
    push_cast
    rfl

/-! ## Lines of words -/

/-- The letters of the words that are rendered without an arc. -/
def renderedLetters : List Char := ['G', 'M', 'X', 'Y', 'Z', 'F', 'S', 'P', 'T']

/-- A text is read as words: each is a blank, a letter, and a number. -/
inductive Reads : List Char → List (Galdr.Word ℚ) → Prop
  | nil : Reads [] []
  | cons {letter : Char} {num text : List Char} {v : ℚ} {words : List (Galdr.Word ℚ)}
      (hletter : letter ∈ renderedLetters) (hnum : NumberText num)
      (hvalue : Import.parseF64 num = some v) (h : Reads text words) :
      Reads (' ' :: letter :: num ++ text) (⟨letter, v⟩ :: words)

/-- What is in common to the letters. -/
theorem renderedLetters_spec {c : Char} (h : c ∈ renderedLetters) :
    isWhitespace c = false ∧ c.isAlpha = true ∧ c.toUpper = c ∧ c ∉ ['%', '(', ';', '/', '\n'] := by
  have hall : (renderedLetters.all fun c => !isWhitespace c && c.isAlpha && decide (c.toUpper = c)
      && decide (c ∉ ['%', '(', ';', '/', '\n'])) = true := by decide
  have hc := List.all_eq_true.1 hall c h
  simpa only [Bool.and_eq_true, Bool.not_eq_true', decide_eq_true_iff, and_assoc] using hc

/-- Behind a letter there is no blank before the number. -/
theorem dropWhile_number {num text : List Char} (hnum : NumberText num) :
    (num ++ text).dropWhile isWhitespace = num ++ text := by
  obtain ⟨negative, body, rfl, hne, hbody⟩ := hnum
  cases negative with
  | true => rfl
  | false =>
    cases body with
    | nil => exact absurd rfl hne
    | cons c body =>
      have hc := not_isWhitespace_of_inNumber (hbody c (List.mem_cons_self ..))
      show (c :: (body ++ text)).dropWhile isWhitespace = _
      rw [List.dropWhile_cons_of_neg (by rw [hc]; exact Bool.false_ne_true)]
      rfl

/-- A letter begins a word. -/
theorem lexFrom_letter {letter : Char} (hletter : letter ∈ renderedLetters) (src : List Char)
    (fuel : ℕ) {rest rest' : List Char} {line line' : GcodeLine ℚ}
    (hword : lexWord letter rest line = .ok (rest', line')) :
    Import.lexFrom src (fuel + 1) (letter :: rest) line = Import.lexFrom src fuel rest' line' := by
  obtain ⟨hspace, halpha, -, hother⟩ := renderedLetters_spec hletter
  simp only [List.mem_cons, not_or] at hother
  obtain ⟨hpercent, hparen, hsemicolon, -⟩ := hother
  conv_lhs => unfold Import.lexFrom
  rw [if_neg (by rw [hspace]; exact Bool.false_ne_true), if_neg hpercent, if_neg hparen,
    if_neg hsemicolon, if_pos halpha, hword]

namespace Reads

theorem append {text text' : List Char} {words words' : List (Galdr.Word ℚ)} (h : Reads text words)
    (h' : Reads text' words') : Reads (text ++ text') (words ++ words') := by
  induction h with
  | nil => exact h'
  | cons hletter hnum hvalue _ ih =>
    rw [List.append_assoc]
    exact .cons hletter hnum hvalue ih

/-- One word. -/
theorem word {letter : Char} {num : List Char} {v : ℚ} (hletter : letter ∈ renderedLetters)
    (hnum : NumberText num) (hvalue : Import.parseF64 num = some v) :
    Reads (' ' :: letter :: num) [⟨letter, v⟩] := by
  have h := Reads.cons hletter hnum hvalue .nil
  rwa [List.append_nil] at h

/-- It begins with a blank, if with anything. -/
theorem head {text : List Char} {words : List (Galdr.Word ℚ)} (h : Reads text words) :
    text.head?.all (fun c => !inNumber c) = true := by
  cases h with
  | nil => rfl
  | cons => rfl

/-- **The lexer reads the words.** -/
theorem lexFrom {src text : List Char} {words : List (Galdr.Word ℚ)} (h : Reads text words) {fuel : ℕ}
    (hfuel : text.length ≤ fuel) (line : GcodeLine ℚ) :
    Import.lexFrom src fuel text line = .ok { line with words := line.words ++ words } := by
  induction h generalizing fuel line with
  | nil =>
    rw [List.append_nil]
    cases fuel with
    | zero => rfl
    | succ fuel => rfl
  | @cons letter num text v words hletter hnum hvalue h ih =>
    have hlength : (' ' :: letter :: num ++ text).length = num.length + text.length + 2 := by
      rw [List.length_append, List.length_cons, List.length_cons]
      omega
    rw [hlength] at hfuel
    obtain ⟨fuel, rfl⟩ := Nat.exists_eq_add_of_le' (show 2 ≤ fuel by omega)
    have hupper := (renderedLetters_spec hletter).2.2.1
    have hword : lexWord letter (num ++ text) line
        = .ok (text, { line with words := line.words ++ [⟨letter, v⟩] }) := by
      unfold lexWord
      dsimp only
      rw [dropWhile_number hnum, splitNumber_append hnum h.head, hupper, hvalue]
    show Import.lexFrom src (fuel + 1) (letter :: (num ++ text)) line = _
    rw [lexFrom_letter hletter src fuel hword, ih (by omega), List.append_assoc]
    rfl

/-- There is no line feed in it. -/
theorem lineFeed {text : List Char} {words : List (Galdr.Word ℚ)} (h : Reads text words) :
    '\n' ∉ text := by
  induction h with
  | nil => exact List.not_mem_nil
  | @cons letter num text v words hletter hnum hvalue h ih =>
    obtain ⟨negative, body, rfl, -, hbody⟩ := hnum
    have hfeed : '\n' ∉ renderedLetters := fun hmem =>
      absurd (renderedLetters_spec hmem).1 (by decide)
    intro hmem
    rcases List.mem_append.1 hmem with hmem | hmem
    · rcases List.mem_cons.1 hmem with hmem | hmem
      · exact absurd hmem (by decide)
      rcases List.mem_cons.1 hmem with hmem | hmem
      · exact hfeed (hmem ▸ hletter)
      rcases List.mem_append.1 hmem with hmem | hmem
      · cases negative with
        | true => exact absurd hmem (by decide)
        | false => exact absurd hmem List.not_mem_nil
      · exact absurd (hbody _ hmem) (by decide)
    · exact ih hmem

/-- No white space is at its end. -/
theorem rdropWhile {text : List Char} {words : List (Galdr.Word ℚ)} (h : Reads text words) :
    text.rdropWhile isWhitespace = text := by
  rw [List.rdropWhile_eq_self_iff]
  intro hne hlast
  induction h with
  | nil => exact hne rfl
  | @cons letter num text v words hletter hnum hvalue h ih =>
    obtain ⟨negative, body, rfl, hbody, hall⟩ := hnum
    by_cases htext : text = []
    · subst htext
      have hsplit : ' ' :: letter :: (F32.sign negative ++ body) ++ []
          = (' ' :: letter :: F32.sign negative) ++ body := by
        rw [List.append_nil]
        rfl
      simp only [hsplit, List.getLast_append_of_ne_nil _ hbody] at hlast
      have hdigit := not_isWhitespace_of_inNumber (hall _ (List.getLast_mem hbody))
      rw [hdigit] at hlast
      cases hlast
    · rw [List.getLast_append_of_ne_nil _ htext] at hlast
      exact ih htext hlast

end Reads

/-- A line without the blank before its first word. -/
structure ReadsLine (text : List Char) (words : List (Galdr.Word ℚ)) : Prop where
  reads : Reads (' ' :: text) words

namespace ReadsLine

variable {text : List Char} {words : List (Galdr.Word ℚ)}

/-- **A line is read as its words.** -/
theorem lexLine (h : ReadsLine text words) : Import.lexLine text = .ok ⟨words, [], false⟩ := by
  have hreads := h.reads
  cases hreads with
  | @cons letter num rest v words hletter hnum hvalue hrest =>
    obtain ⟨hspace, -, -, hother⟩ := renderedLetters_spec hletter
    have hdrop : ((letter :: num).append rest).dropWhile isWhitespace = (letter :: num).append rest :=
      List.dropWhile_cons_of_neg (by rw [hspace]; exact Bool.false_ne_true)
    have hlex : Import.lexFrom (letter :: num ++ rest) ((letter :: num ++ rest).length + 1)
        (' ' :: (letter :: num ++ rest)) GcodeLine.empty = .ok ⟨⟨letter, v⟩ :: words, [], false⟩ :=
      h.reads.lexFrom le_rfl GcodeLine.empty
    unfold Import.lexLine
    dsimp only
    rw [hdrop]
    split
    · rename_i hcons
      exact absurd ((List.cons.inj hcons).1 ▸ hother) (by decide)
    · exact hlex

/-- No white space is at its end. -/
theorem rdropWhile (h : ReadsLine text words) : text.rdropWhile isWhitespace = text := by
  have hline := h.reads.rdropWhile
  rw [List.rdropWhile_eq_self_iff] at hline ⊢
  intro hne
  have hlast := hline (List.cons_ne_nil _ _)
  rwa [List.getLast_cons hne] at hlast

theorem lineFeed (h : ReadsLine text words) : '\n' ∉ text := fun hmem =>
  h.reads.lineFeed (List.mem_cons_of_mem _ hmem)

end ReadsLine

end Galdr.Eitri
