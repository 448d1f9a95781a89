import Galdr.GcodeImport
import Galdr.GcodeParser
import Galdr.ProgramText

/-!
# Two lexers of one line

The machine takes a line apart byte by byte, the import character by character, and each
reads numbers in its own way. Where the machine finds no fault with a line, the import reads
the same words from it (`lexLine_eq`).
-/

namespace Text

/-! ## Characters and their bytes -/

/-- A character up to 127 is its byte; the bytes of the others are all greater. -/
theorem utf8EncodeChar_cases (c : Char) :
    c.toNat < 128 ∧ String.utf8EncodeChar c = [UInt8.ofNat c.toNat]
      ∨ 128 ≤ c.toNat ∧ String.utf8EncodeChar c ≠ []
        ∧ ∀ b ∈ String.utf8EncodeChar c, 128 ≤ b.toNat := by
  have htoNat : c.toNat = c.val.toNat := rfl
  unfold String.utf8EncodeChar
  rw [htoNat]
  generalize c.val.toNat = v
  dsimp only
  split
  · exact .inl ⟨by omega, rfl⟩
  · refine .inr ⟨by omega, ?_, ?_⟩
    · repeat' split
      all_goals exact List.cons_ne_nil _ _
    · repeat' split
      all_goals
        simp only [List.forall_mem_cons, List.not_mem_nil, false_imp_iff, implies_true, and_true,
          UInt8.toNat_ofNat']
        omega

theorem utf8_cons (c : Char) (rest : List Char) :
    utf8 (c :: rest) = String.utf8EncodeChar c ++ utf8 rest := rfl

/-- A test of characters and one of bytes ask the same. -/
structure SameTest (p : Char → Bool) (q : UInt8 → Bool) : Prop where
  /-- They agree up to 127. -/
  ascii : ∀ n < 128, q (UInt8.ofNat n) = p (Char.ofNat n)
  /-- No other character passes. -/
  char : ∀ c : Char, 128 ≤ c.toNat → p c = false
  /-- Nor does another byte. -/
  byte : ∀ b : UInt8, 128 ≤ b.toNat → q b = false

variable {p : Char → Bool} {q : UInt8 → Bool}

theorem SameTest.head (h : SameTest p q) (c : Char) :
    p c = true ∧ String.utf8EncodeChar c = [UInt8.ofNat c.toNat] ∧ q (UInt8.ofNat c.toNat) = true
      ∨ p c = false ∧ ∃ b bs, String.utf8EncodeChar c = b :: bs ∧ q b = false := by
  rcases utf8EncodeChar_cases c with ⟨hc, hencode⟩ | ⟨hc, hne, hbytes⟩
  · have hsame := h.ascii c.toNat hc
    rw [Char.ofNat_toNat] at hsame
    cases hp : p c with
    | true => exact .inl ⟨rfl, hencode, hsame.trans hp⟩
    | false => exact .inr ⟨rfl, _, _, hencode, hsame.trans hp⟩
  · obtain ⟨b, bs, hcons⟩ := List.exists_cons_of_ne_nil hne
    exact .inr ⟨h.char c hc, b, bs, hcons, h.byte b (hbytes b (hcons ▸ List.mem_cons_self))⟩

theorem SameTest.takeWhile (h : SameTest p q) (text : List Char) :
    (utf8 text).takeWhile q = utf8 (text.takeWhile p) := by
  induction text with
  | nil => rfl
  | cons c rest ih =>
    rw [utf8_cons]
    rcases h.head c with ⟨hp, hencode, hq⟩ | ⟨hp, b, bs, hencode, hq⟩
    · rw [hencode, List.takeWhile_cons_of_pos hp, utf8_cons, hencode, List.singleton_append,
        List.takeWhile_cons_of_pos hq, ih]
      rfl
    · rw [hencode, List.takeWhile_cons_of_neg (by rw [hp]; exact Bool.false_ne_true),
        List.cons_append, List.takeWhile_cons_of_neg (by rw [hq]; exact Bool.false_ne_true)]
      rfl

theorem SameTest.dropWhile (h : SameTest p q) (text : List Char) :
    (utf8 text).dropWhile q = utf8 (text.dropWhile p) := by
  induction text with
  | nil => rfl
  | cons c rest ih =>
    rw [utf8_cons]
    rcases h.head c with ⟨hp, hencode, hq⟩ | ⟨hp, b, bs, hencode, hq⟩
    · rw [hencode, List.dropWhile_cons_of_pos hp, List.singleton_append,
        List.dropWhile_cons_of_pos hq, ih]
    · rw [hencode, List.dropWhile_cons_of_neg (by rw [hp]; exact Bool.false_ne_true),
        List.cons_append, List.dropWhile_cons_of_neg (by rw [hq]; exact Bool.false_ne_true),
        utf8_cons, hencode]
      rfl

theorem utf8EncodeChar_ne_nil (c : Char) : String.utf8EncodeChar c ≠ [] := by
  rcases utf8EncodeChar_cases c with ⟨-, hencode⟩ | ⟨-, hne, -⟩
  · rw [hencode]
    exact List.cons_ne_nil _ _
  · exact hne

theorem utf8_eq_nil_iff {text : List Char} : utf8 text = [] ↔ text = [] := by
  cases text with
  | nil => exact iff_of_true rfl rfl
  | cons c rest =>
    refine iff_of_false (fun h => ?_) (List.cons_ne_nil c rest)
    exact utf8EncodeChar_ne_nil c (List.append_eq_nil_iff.1 h).1

/-- To ask for one character is to ask for its byte. -/
theorem sameTest_char {d : Char} (hd : d.toNat < 128) :
    SameTest (fun c => decide (c = d)) fun b => decide (b = UInt8.ofNat d.toNat) where
  ascii := fun n hn => by
    have hbyte : UInt8.ofNat n = UInt8.ofNat d.toNat ↔ n = d.toNat := by
      rw [← UInt8.toNat_inj, UInt8.toNat_ofNat', UInt8.toNat_ofNat']
      omega
    have hchar : Char.ofNat n = d ↔ n = d.toNat := by
      constructor
      · rintro rfl
        rw [Char.toNat_ofNat, if_pos (.inl (by omega))]
      · rintro rfl
        exact Char.ofNat_toNat d
    exact decide_eq_decide.2 (hbyte.trans hchar.symm)
  char := fun c hc => decide_eq_false fun h => by rw [h] at hc; omega
  byte := fun b hb => decide_eq_false fun h => by
    rw [h, UInt8.toNat_ofNat'] at hb
    omega

end Text

namespace Galdr.Import

open Text

/-! ## Numbers -/

theorem sameTest_isDigit : SameTest Char.isDigit Lexer.isAsciiDigit where
  ascii := by decide
  char := fun c hc => by
    have htoNat : c.toNat = c.val.toNat := rfl
    unfold Char.isDigit
    rw [Bool.and_eq_false_iff, decide_eq_false_iff_not, decide_eq_false_iff_not]
    right
    intro hle
    have hle' : c.val.toNat ≤ 57 := hle
    omega
  byte := fun b hb => by
    unfold Lexer.isAsciiDigit
    rw [Bool.and_eq_false_iff, decide_eq_false_iff_not, decide_eq_false_iff_not]
    right
    intro hle
    have hle' : b.toNat ≤ 57 := hle
    omega

theorem sameTest_inNumber :
    SameTest inNumber fun b => Lexer.isAsciiDigit b || decide (b = '.'.toUInt8) where
  ascii := by decide
  char := fun c hc => by
    unfold inNumber
    rw [sameTest_isDigit.char c hc, Bool.false_or, decide_eq_false_iff_not]
    rintro rfl
    exact absurd hc (by decide)
  byte := fun b hb => by
    show (Lexer.isAsciiDigit b || decide (b = '.'.toUInt8)) = false
    rw [sameTest_isDigit.byte b hb, Bool.false_or, decide_eq_false_iff_not]
    rintro rfl
    exact absurd hb (by decide)

theorem sameTest_isSign : SameTest (fun c => decide (c = '+') || decide (c = '-')) Lexer.isSign where
  ascii := by decide
  char := fun c hc => by
    rw [(sameTest_char (d := '+') (by decide)).char c hc,
      (sameTest_char (d := '-') (by decide)).char c hc]
    rfl
  byte := fun b hb => by
    unfold Lexer.isSign
    rw [Bool.or_eq_false_iff, decide_eq_false_iff_not, decide_eq_false_iff_not]
    constructor <;>
      (rintro rfl; exact absurd hb (by decide))

section Numbers

variable {K : Type} [Field K]

omit [Field K] in
/-- The byte of a digit. -/
theorem encode_digit {c : Char} (h : c.isDigit = true) :
    String.utf8EncodeChar c = [UInt8.ofNat c.toNat] ∧ (UInt8.ofNat c.toNat).toNat = c.toNat := by
  rcases utf8EncodeChar_cases c with ⟨hc, hencode⟩ | ⟨hc, -⟩
  · refine ⟨hencode, ?_⟩
    rw [UInt8.toNat_ofNat']
    omega
  · exact absurd (h.symm.trans (sameTest_isDigit.char c hc)) (Ne.symm Bool.false_ne_true)

/-- The digits of a number, as the machine reads them. -/
theorem foldl_digitValue {digits : List Char} (h : ∀ c ∈ digits, c.isDigit = true) (n : ℕ) :
    (utf8 digits).foldl (fun value d => value * 10 + digitValue d) (n : K)
      = (Nat.ofDigitChars 10 digits n : K) := by
  induction digits generalizing n with
  | nil => rfl
  | cons c rest ih =>
    obtain ⟨hencode, hbyte⟩ := encode_digit (h c List.mem_cons_self)
    have hstep : (n : K) * 10 + digitValue (UInt8.ofNat c.toNat)
        = ((10 * n + (c.toNat - 48) : ℕ) : K) := by
      unfold digitValue
      rw [hbyte]
      push_cast
      ring
    rw [utf8_cons, hencode, List.singleton_append, List.foldl_cons, hstep,
      ih (fun d hd => h d (List.mem_cons_of_mem c hd)), Nat.ofDigitChars_cons]
    rfl

variable [CharZero K]

/-- The digits behind the point, as the machine reads them. -/
theorem foldl_fraction {digits : List Char} (h : ∀ c ∈ digits, c.isDigit = true) (value scale : K) :
    ((utf8 digits).foldl (fun (value, scale) d =>
        (value + digitValue d * scale, scale * (1 / 10))) (value, scale)).1
      = value + scale * 10 * (Nat.ofDigitChars 10 digits 0 : K) / 10 ^ digits.length := by
  induction digits generalizing value scale with
  | nil => simp [utf8]
  | cons c rest ih =>
    obtain ⟨hencode, hbyte⟩ := encode_digit (h c List.mem_cons_self)
    have hsplit : Nat.ofDigitChars 10 rest (10 * 0 + (c.toNat - '0'.toNat))
        = 10 ^ rest.length * (c.toNat - 48) + Nat.ofDigitChars 10 rest 0 := by
      rw [Nat.ofDigitChars_eq_ofDigitChars_zero, Nat.mul_zero, Nat.zero_add]
      rfl
    have hten : (10 : K) ≠ 0 := by norm_num
    rw [utf8_cons, hencode, List.singleton_append, List.foldl_cons,
      ih (fun d hd => h d (List.mem_cons_of_mem c hd)), Nat.ofDigitChars_cons, hsplit,
      List.length_cons, pow_succ]
    unfold digitValue
    rw [hbyte]
    push_cast
    field_simp
    ring

/-- What a decimal number stands for, in a field. -/
theorem cast_decimalValue (whole fraction : List Char) :
    ((decimalValue whole fraction 0 : NNRat) : K)
      = Nat.ofDigitChars 10 whole 0 + Nat.ofDigitChars 10 fraction 0 / 10 ^ fraction.length := by
  have hten : (10 : K) ≠ 0 := by norm_num
  unfold decimalValue
  rw [Nat.ofDigitChars_append, Nat.ofDigitChars_eq_ofDigitChars_zero, zero_sub, zpow_neg,
    zpow_natCast]
  push_cast
  field_simp

omit [Field K] [CharZero K] in
/-- The sign of a number, and the bytes behind it. -/
theorem splitSign_utf8 (c : Char) (rest : List Char) :
    (∃ b, utf8 (c :: rest) = b :: utf8 rest ∧ Lexer.isSign b = true
        ∧ splitSign (c :: rest) = (decide (b = '-'.toUInt8), rest))
      ∨ ∃ b bs, utf8 (c :: rest) = b :: bs ∧ Lexer.isSign b = false
        ∧ splitSign (c :: rest) = (false, c :: rest) := by
  by_cases hplus : c = '+'
  · rw [hplus]
    exact .inl ⟨43, rfl, rfl, rfl⟩
  by_cases hminus : c = '-'
  · rw [hminus]
    exact .inl ⟨45, rfl, rfl, rfl⟩
  have hsame : splitSign (c :: rest) = (false, c :: rest) := by
    unfold splitSign
    split
    · rename_i h
      exact absurd (List.cons.inj h).1 hplus
    · rename_i h
      exact absurd (List.cons.inj h).1 hminus
    · rfl
  rcases sameTest_isSign.head c with ⟨hp, -⟩ | ⟨-, b, bs, hencode, hb⟩
  · rw [Bool.or_eq_true, decide_eq_true_iff, decide_eq_true_iff] at hp
    exact absurd hp (not_or.2 ⟨hplus, hminus⟩)
  · refine .inr ⟨b, bs ++ utf8 rest, ?_, hb, hsame⟩
    rw [utf8_cons, hencode, List.cons_append]

/-- A number that the machine reads, the import reads as the same number. -/
theorem parseF64_of_parseF32 {num : List Char} {v : K} (h : parseF32 (utf8 num) = .ok v) :
    parseF64 num = some v := by
  unfold parseF32 at h
  split at h
  rename_i negative rest hsign
  have hsplit : ∃ chars, splitSign num = (negative, chars) ∧ rest = utf8 chars := by
    cases num with
    | nil =>
      obtain ⟨rfl, rfl⟩ := Prod.mk.inj hsign
      exact ⟨[], rfl, rfl⟩
    | cons c tail =>
      rcases splitSign_utf8 c tail with ⟨b, hbytes, hb, hsplit⟩ | ⟨b, bs, hbytes, hb, hsplit⟩
      · rw [hbytes] at hsign
        dsimp only at hsign
        rw [if_pos hb] at hsign
        obtain ⟨rfl, rfl⟩ := Prod.mk.inj hsign
        exact ⟨tail, hsplit, rfl⟩
      · rw [hbytes] at hsign
        dsimp only at hsign
        rw [if_neg (by rw [hb]; exact Bool.false_ne_true)] at hsign
        obtain ⟨rfl, rfl⟩ := Prod.mk.inj hsign
        exact ⟨c :: tail, hsplit, hbytes.symm⟩
  obtain ⟨chars, hchars, rfl⟩ := hsplit
  unfold parseF64
  rw [hchars]
  dsimp only at h ⊢
  rw [sameTest_isDigit.takeWhile, sameTest_isDigit.dropWhile] at h
  unfold parseDecimal
  dsimp only
  have hwhole : ∀ c ∈ chars.takeWhile Char.isDigit, c.isDigit = true := fun c hc =>
    List.mem_takeWhile_imp hc
  generalize chars.takeWhile Char.isDigit = whole at *
  generalize chars.dropWhile Char.isDigit = tail at *
  have hint := foldl_digitValue (K := K) hwhole 0
  rw [Nat.cast_zero] at hint
  rw [hint] at h
  split at h
  · -- no point
    rename_i hnil
    obtain rfl := utf8_eq_nil_iff.1 hnil
    split at h
    · cases h
    · rename_i hgood
      rw [Bool.not_eq_true, Bool.or_eq_false_iff, Bool.not_eq_false'] at hgood
      have hne : whole ≠ [] := mt utf8_eq_nil_iff.2 (bne_iff_ne.1 hgood.1)
      rw [← Except.ok.inj h, if_neg fun h => hne h.1]
      simp [splitFraction, decimalValue]
  · rename_i b bytes hcons
    split at h
    · -- a point, and behind it the end of the number
      rename_i hpoint
      obtain ⟨rest, rfl, rfl⟩ : ∃ rest, tail = '.' :: rest ∧ bytes = utf8 rest := by
        cases tail with
        | nil => cases hcons
        | cons c rest =>
          have hsame : SameTest (fun c => decide (c = '.')) fun b => decide (b = '.'.toUInt8) :=
            sameTest_char (by decide)
          rw [utf8_cons] at hcons
          rcases hsame.head c with ⟨hc, hencode, -⟩ | ⟨-, b', bs, hencode, hb'⟩
          · rw [hencode] at hcons
            rw [of_decide_eq_true hc]
            exact ⟨rest, rfl, (List.cons.inj hcons).2.symm⟩
          · rw [hencode] at hcons
            rw [(List.cons.inj hcons).1, hpoint] at hb'
            cases hb'
      rw [sameTest_isDigit.takeWhile, sameTest_isDigit.dropWhile] at h
      have hfraction : ∀ c ∈ rest.takeWhile Char.isDigit, c.isDigit = true := fun c hc =>
        List.mem_takeWhile_imp hc
      have hsplit : splitFraction ('.' :: rest)
          = (rest.takeWhile Char.isDigit, rest.dropWhile Char.isDigit) := rfl
      rw [hsplit]
      generalize rest.takeWhile Char.isDigit = fraction at *
      generalize rest.dropWhile Char.isDigit = tail at *
      rw [foldl_fraction hfraction] at h
      split at h
      · cases h
      · rename_i hgood
        rw [Bool.not_eq_true, Bool.or_eq_false_iff, Bool.not_eq_false', Bool.or_eq_true,
          bne_iff_ne, bne_iff_ne, bne_eq_false_iff_eq, utf8_eq_nil_iff] at hgood
        obtain ⟨hsaw, rfl⟩ := hgood
        have hne : ¬(whole = [] ∧ fraction = []) := fun h =>
          hsaw.elim (fun hw => hw (utf8_eq_nil_iff.2 h.1)) fun hf => hf (utf8_eq_nil_iff.2 h.2)
        rw [if_neg hne, ← Except.ok.inj h]
        show some (if negative = true then -((decimalValue whole fraction 0 : NNRat) : K)
          else (decimalValue whole fraction 0 : NNRat)) = _
        rw [cast_decimalValue, one_div, inv_mul_cancel₀ (by norm_num : (10 : K) ≠ 0), one_mul]
    · split at h
      · cases h
      · rename_i hgood
        rw [Bool.not_eq_true, Bool.or_eq_false_iff, bne_eq_false_iff_eq] at hgood
        cases hgood.2

end Numbers

/-! ## Words -/

/-- A blank or a tab. -/
def isBlank (c : Char) : Bool := c = ' ' || c = '\t'

/-- The machine's white space. -/
def isSpace (c : Char) : Bool := isBlank c || c = '\r' || c = '\n'

theorem sameTest_isBlank : SameTest isBlank fun b => decide (b = 32) || decide (b = 9) where
  ascii := by decide
  char := fun c hc => by
    unfold isBlank
    rw [(sameTest_char (d := ' ') (by decide)).char c hc,
      (sameTest_char (d := '\t') (by decide)).char c hc]
    rfl
  byte := fun b hb => by
    rw [Bool.or_eq_false_iff, decide_eq_false_iff_not, decide_eq_false_iff_not]
    constructor <;>
      (rintro rfl; exact absurd hb (by decide))

theorem sameTest_isSpace : SameTest isSpace Lexer.isWhitespace where
  ascii := by decide
  char := fun c hc => by
    unfold isSpace
    rw [sameTest_isBlank.char c hc, (sameTest_char (d := '\r') (by decide)).char c hc,
      (sameTest_char (d := '\n') (by decide)).char c hc]
    rfl
  byte := fun b hb => by
    unfold Lexer.isWhitespace
    rw [sameTest_isBlank.byte b hb, Bool.false_or, Bool.or_eq_false_iff, decide_eq_false_iff_not,
      decide_eq_false_iff_not]
    constructor <;>
      (rintro rfl; exact absurd hb (by decide))

theorem sameTest_isAlpha : SameTest Char.isAlpha Lexer.isAsciiAlphabetic where
  ascii := by decide
  char := fun c hc => by
    have htoNat : c.toNat = c.val.toNat := rfl
    unfold Char.isAlpha Char.isUpper Char.isLower
    rw [Bool.or_eq_false_iff, Bool.and_eq_false_iff]
    refine ⟨decide_eq_false fun hle => ?_, .inr (decide_eq_false fun hle => ?_)⟩
    · have hle' : c.val.toNat ≤ 90 := hle.2
      omega
    · have hle' : c.val.toNat ≤ 122 := hle
      omega
  byte := fun b hb => by
    unfold Lexer.isAsciiAlphabetic
    rw [Bool.or_eq_false_iff, Bool.and_eq_false_iff, Bool.and_eq_false_iff]
    refine ⟨.inr (decide_eq_false fun hle => ?_), .inr (decide_eq_false fun hle => ?_)⟩
    · have hle' : b.toNat ≤ 90 := hle
      omega
    · have hle' : b.toNat ≤ 122 := hle
      omega

/-- The number of a word is the same in characters and in bytes. -/
theorem advanceOverNumber_utf8 (rest : List Char) :
    Lexer.advanceOverNumber (utf8 rest) = (utf8 (splitNumber rest).1, utf8 (splitNumber rest).2) := by
  cases rest with
  | nil => rfl
  | cons c tail =>
    unfold splitNumber
    dsimp only
    rcases sameTest_isSign.head c with ⟨hc, hencode, hb⟩ | ⟨hc, b, bs, hencode, hb⟩
    · rw [if_pos hc, utf8_cons, hencode, List.singleton_append]
      unfold Lexer.advanceOverNumber
      dsimp only
      rw [if_pos hb, sameTest_inNumber.takeWhile, sameTest_inNumber.dropWhile, utf8_cons, hencode]
      rfl
    · rw [if_neg (by rw [hc]; exact Bool.false_ne_true), ← sameTest_inNumber.takeWhile,
        ← sameTest_inNumber.dropWhile, utf8_cons, hencode, List.cons_append]
      unfold Lexer.advanceOverNumber
      dsimp only
      rw [if_neg (by rw [hb]; exact Bool.false_ne_true)]

theorem isWhitespace_of_isSpace {c : Char} (h : isSpace c = true) : isWhitespace c = true := by
  unfold isSpace isBlank at h
  rw [Bool.or_eq_true, Bool.or_eq_true, Bool.or_eq_true, decide_eq_true_iff, decide_eq_true_iff,
    decide_eq_true_iff, decide_eq_true_iff] at h
  rcases h with ((rfl | rfl) | rfl) | rfl <;> rfl

theorem isSpace_of_isBlank {c : Char} (h : isBlank c = true) : isSpace c = true := by
  unfold isSpace
  rw [h]
  rfl

/-- Nothing of a number is white space. -/
theorem not_isWhitespace_of_splitNumber {c : Char} {rest : List Char}
    (h : (splitNumber (c :: rest)).1 ≠ []) : isWhitespace c = false := by
  unfold splitNumber at h
  dsimp only at h
  split at h
  · rename_i hsign
    rw [Bool.or_eq_true, decide_eq_true_iff, decide_eq_true_iff] at hsign
    rcases hsign with rfl | rfl <;> rfl
  · cases hc : inNumber c with
    | true =>
      unfold inNumber at hc
      rw [Bool.or_eq_true, decide_eq_true_iff] at hc
      rcases hc with hc | rfl
      · exact isWhitespace_of_isDigit hc
      · rfl
    | false =>
      rw [List.takeWhile_cons_of_neg (by rw [hc]; exact Bool.false_ne_true)] at h
      exact absurd rfl h

/-- Behind the blanks before a number there is no other white space. -/
theorem dropWhile_isWhitespace {rest : List Char}
    (h : (splitNumber (rest.dropWhile isBlank)).1 ≠ []) :
    rest.dropWhile isWhitespace = rest.dropWhile isBlank := by
  induction rest with
  | nil => rfl
  | cons c rest ih =>
    by_cases hc : isBlank c = true
    · rw [List.dropWhile_cons_of_pos (isWhitespace_of_isSpace (isSpace_of_isBlank hc)),
        List.dropWhile_cons_of_pos hc]
      rw [List.dropWhile_cons_of_pos hc] at h
      exact ih h
    · rw [List.dropWhile_cons_of_neg hc] at h ⊢
      rw [List.dropWhile_cons_of_neg (by
        rw [not_isWhitespace_of_splitNumber h]; exact Bool.false_ne_true)]

theorem length_splitNumber_le (rest : List Char) : (splitNumber rest).2.length ≤ rest.length := by
  unfold splitNumber
  split
  · exact le_rfl
  · split
    · exact (List.length_dropWhile_le _ _).trans (Nat.le_succ _)
    · exact List.length_dropWhile_le _ _

/-! ## Lines -/

section Lines

variable {K : Type} [Field K]

/-- The words of a line are those of what is behind the space and the comments at its head. -/
theorem words_congr {bytes bytes' : List UInt8}
    (h : Lexer.skipInsignificant false bytes = Lexer.skipInsignificant false bytes') :
    Lexer.words (K := K) bytes = Lexer.words bytes' := by
  have hnext : Lexer.nextWord (K := K) bytes = Lexer.nextWord bytes' := by
    unfold Lexer.nextWord
    rw [h]
  rw [Lexer.words_eq, hnext, ← Lexer.words_eq]

/-- What begins with a byte that the machine does not know has no word. -/
theorem words_unknown {b : UInt8} {bytes : List UInt8} (hspace : Lexer.isWhitespace b = false)
    (hsemicolon : b ≠ 59) (hparen : b ≠ 40) (halpha : Lexer.isAsciiAlphabetic b = false) :
    Lexer.words (K := K) (b :: bytes) = [.error .expectedCommandLetterValue] := by
  have hskip : Lexer.skipInsignificant false (b :: bytes) = b :: bytes := by
    unfold Lexer.skipInsignificant
    rw [if_neg Bool.false_ne_true, if_neg (by rw [hspace]; exact Bool.false_ne_true),
      if_neg (show b ≠ ';'.toUInt8 from hsemicolon), if_neg (show b ≠ '('.toUInt8 from hparen)]
  have hnext : Lexer.nextWord (K := K) (b :: bytes)
      = some (.error .expectedCommandLetterValue, b :: bytes) := by
    unfold Lexer.nextWord
    rw [hskip]
    dsimp only
    rw [halpha]
    rfl
  rw [Lexer.words_eq, hnext]

omit [Field K] in
/-- A comment goes on over what does not close it. -/
theorem skip_inside {bytes : List UInt8} (h : ∀ b ∈ bytes, b ≠ 41) (rest : List UInt8) :
    Lexer.skipInsignificant true (bytes ++ rest) = Lexer.skipInsignificant true rest := by
  induction bytes with
  | nil => rfl
  | cons b bytes ih =>
    have hb : (b != ')'.toUInt8) = true := bne_iff_ne.2 (h b List.mem_cons_self)
    rw [List.cons_append]
    show Lexer.skipInsignificant (b != ')'.toUInt8) (bytes ++ rest) = _
    rw [hb, ih fun b' hb' => h b' (List.mem_cons_of_mem b hb')]

omit [Field K] in
/-- Only the closing parenthesis has its byte. -/
theorem ne_closing {c : Char} (hc : c ≠ ')') : ∀ b ∈ String.utf8EncodeChar c, b ≠ 41 := by
  intro b hb hclosing
  rw [hclosing] at hb
  rcases utf8EncodeChar_cases c with ⟨hascii, hencode⟩ | ⟨-, -, hbytes⟩
  · rw [hencode, List.mem_singleton, ← UInt8.toNat_inj, UInt8.toNat_ofNat'] at hb
    have h41 : c.toNat = 41 := by
      have : (41 : UInt8).toNat = 41 := rfl
      omega
    have hchar := Char.ofNat_toNat c
    rw [h41] at hchar
    exact hc hchar.symm
  · exact absurd (hbytes 41 hb) (by decide)

omit [Field K] in
/-- A comment goes to the first closing parenthesis, in characters and in bytes. -/
theorem skip_comment (rest : List Char) :
    Lexer.skipInsignificant true (utf8 rest)
      = Lexer.skipInsignificant false (utf8 (rest.dropWhile (· != ')')).tail) := by
  induction rest with
  | nil => rfl
  | cons c rest ih =>
    by_cases hc : c = ')'
    · rw [hc]
      rfl
    · rw [utf8_cons, skip_inside (ne_closing hc), ih,
        List.dropWhile_cons_of_pos (p := (· != ')')) (bne_iff_ne.2 hc)]

omit [Field K] in
/-- A character that is not the given one does not begin with its byte. -/
theorem first_byte_ne {c d : Char} {b : UInt8} {bs : List UInt8} (hd : d.toNat < 128) (hc : c ≠ d)
    (hencode : String.utf8EncodeChar c = b :: bs) : b ≠ UInt8.ofNat d.toNat := by
  intro hb
  rcases (sameTest_char hd).head c with ⟨hc', -⟩ | ⟨-, b', bs', hencode', hb'⟩
  · exact hc (of_decide_eq_true hc')
  · rw [hencode] at hencode'
    rw [← (List.cons.inj hencode').1, hb] at hb'
    exact of_decide_eq_false hb' rfl

omit [Field K] in
/-- A letter is no white space, and its upper case is that of its byte. -/
theorem letter_ascii : ∀ n < 128, (Char.ofNat n).isAlpha = true →
    isWhitespace (Char.ofNat n) = false
      ∧ Lexer.toAsciiUppercase (UInt8.ofNat n) = (Char.ofNat n).toUpper := by
  decide

variable [CharZero K]

/-- What the machine finds no fault with, character by character: white space, a comment, the
rest of the line, or a word. -/
theorem words_cons {c : Char} {rest : List Char} {words : List (Word K)}
    (h : Lexer.words (utf8 (c :: rest)) = words.map .ok) :
    isSpace c = true ∧ Lexer.words (utf8 rest) = words.map .ok
      ∨ c = '(' ∧ Lexer.words (utf8 (rest.dropWhile (· != ')')).tail) = words.map .ok
      ∨ c = ';' ∧ words = []
      ∨ c.isAlpha = true ∧ isWhitespace c = false ∧ ∃ value more,
        rest.dropWhile isWhitespace = rest.dropWhile isBlank
          ∧ parseF64 (splitNumber (rest.dropWhile isBlank)).1 = some value
          ∧ words = ⟨c.toUpper, value⟩ :: more
          ∧ Lexer.words (utf8 (splitNumber (rest.dropWhile isBlank)).2) = more.map .ok := by
  rcases sameTest_isSpace.head c with ⟨hc, hencode, hb⟩ | ⟨hc, b, bs, hencode, hb⟩
  · refine .inl ⟨hc, ?_⟩
    rw [← h, utf8_cons, hencode]
    refine words_congr ?_
    show _ = if false then _ else if _ then _ else _
    rw [if_neg Bool.false_ne_true, if_pos hb]
    rfl
  · by_cases hparen : c = '('
    · refine .inr (.inl ⟨hparen, ?_⟩)
      rw [← h, hparen]
      exact words_congr (skip_comment rest).symm
    by_cases hsemicolon : c = ';'
    · refine .inr (.inr (.inl ⟨hsemicolon, ?_⟩))
      rw [hsemicolon, Lexer.words_eq] at h
      exact List.map_eq_nil_iff.1 h.symm
    have hb59 : b ≠ 59 := first_byte_ne (d := ';') (by decide) hsemicolon hencode
    have hb40 : b ≠ 40 := first_byte_ne (d := '(') (by decide) hparen hencode
    rcases sameTest_isAlpha.head c with ⟨halpha, hencode', hb'⟩ | ⟨-, b', bs', hencode', hb'⟩
    · have hc128 : c.toNat < 128 := by
        by_contra hge
        exact absurd (halpha.symm.trans (sameTest_isAlpha.char c (not_lt.1 hge))) (Ne.symm Bool.false_ne_true)
      have hletter := letter_ascii c.toNat hc128
      rw [Char.ofNat_toNat] at hletter
      obtain ⟨hwhite, hupper⟩ := hletter halpha
      rw [hencode] at hencode'
      obtain ⟨rfl, rfl⟩ := List.cons.inj hencode'
      rw [utf8_cons, hencode, List.singleton_append, Lexer.words_eq] at h
      have hskip : Lexer.skipInsignificant false (UInt8.ofNat c.toNat :: utf8 rest)
          = UInt8.ofNat c.toNat :: utf8 rest := by
        unfold Lexer.skipInsignificant
        rw [if_neg Bool.false_ne_true, if_neg (by rw [hb]; exact Bool.false_ne_true),
          if_neg (show _ ≠ ';'.toUInt8 from hb59), if_neg (show _ ≠ '('.toUInt8 from hb40)]
      unfold Lexer.nextWord at h
      rw [hskip] at h
      dsimp only at h
      rw [hb', sameTest_isBlank.dropWhile, advanceOverNumber_utf8, hupper] at h
      dsimp only at h
      rw [if_neg (by decide)] at h
      split at h
      · rename_i hnext
        split at hnext
        · cases hnext
        · split at hnext <;> cases hnext
      · cases words with
        | nil => cases h
        | cons w ws => cases (List.cons.inj h).1
      · rename_i word tail hnext
        split at hnext
        · cases (Prod.mk.inj (Option.some.inj hnext)).1
        · rename_i hnumber
          split at hnext
          · rename_i value hvalue
            obtain ⟨hword, rfl⟩ := Prod.mk.inj (Option.some.inj hnext)
            obtain rfl := Except.ok.inj hword
            cases words with
            | nil => cases h
            | cons w ws =>
              obtain ⟨hw, hws⟩ := List.cons.inj h
              refine .inr (.inr (.inr ⟨halpha, hwhite, value, ws, ?_, parseF64_of_parseF32 hvalue,
                ?_, hws⟩))
              · exact dropWhile_isWhitespace (mt utf8_eq_nil_iff.2 hnumber)
              · rw [← Except.ok.inj hw]
          · cases (Prod.mk.inj (Option.some.inj hnext)).1
    · rw [hencode] at hencode'
      obtain ⟨rfl, -⟩ := List.cons.inj hencode'
      rw [utf8_cons, hencode, List.cons_append, words_unknown hb hb59 hb40 hb'] at h
      cases words with
      | nil => cases h
      | cons w ws => cases (List.cons.inj h).1

/-- **The import reads the words that the machine reads**, in what is left of a line. -/
theorem lexFrom_eq (src : List Char) {fuel : ℕ} {chars : List Char} {words : List (Word K)}
    (hfuel : chars.length ≤ fuel) (h : Lexer.words (utf8 chars) = words.map .ok)
    (line : GcodeLine K) :
    ∃ comments, lexFrom src fuel chars line
      = .ok ⟨line.words ++ words, line.comments ++ comments, line.blockDelete⟩ := by
  induction fuel generalizing chars words line with
  | zero =>
    obtain rfl := List.length_eq_zero_iff.1 (Nat.le_zero.1 hfuel)
    obtain rfl : words = [] := List.map_eq_nil_iff.1 h.symm
    exact ⟨[], by rw [List.append_nil, List.append_nil]; rfl⟩
  | succ fuel ih =>
    cases chars with
    | nil =>
      obtain rfl : words = [] := List.map_eq_nil_iff.1 h.symm
      exact ⟨[], by rw [List.append_nil, List.append_nil]; rfl⟩
    | cons c rest =>
      have hrest : rest.length ≤ fuel := Nat.le_of_succ_le_succ hfuel
      unfold lexFrom
      rcases words_cons h with ⟨hc, h⟩ | ⟨hc, h⟩ | ⟨hc, h⟩ |
        ⟨halpha, hwhite, value, more, hdrop, hvalue, hwords, h⟩
      · rw [if_pos (isWhitespace_of_isSpace hc)]
        exact ih hrest h line
      · rw [hc, if_neg (by decide), if_neg (by decide), if_pos rfl]
        have hlength : (rest.dropWhile (· != ')')).tail.length ≤ fuel := by
          rw [List.length_tail]
          exact (Nat.sub_le _ _).trans ((List.length_dropWhile_le _ _).trans hrest)
        obtain ⟨comments, hlex⟩ := ih hlength h (lexParenComment rest line).2
        refine ⟨trim (rest.takeWhile (· != ')')) :: comments, hlex.trans ?_⟩
        unfold lexParenComment
        rw [List.append_assoc, List.singleton_append]
      · rw [hc, if_neg (by decide), if_neg (by decide), if_neg (by decide), if_pos rfl, h]
        exact ⟨[trim rest], by rw [List.append_nil]⟩
      · have hne {d : Char} (hd : d.isAlpha = false) : c ≠ d := fun heq =>
          absurd (halpha.symm.trans (heq ▸ hd)) (Ne.symm Bool.false_ne_true)
        rw [if_neg (by rw [hwhite]; exact Bool.false_ne_true), if_neg (hne rfl), if_neg (hne rfl),
          if_neg (hne rfl), if_pos halpha]
        have hlength : (splitNumber (rest.dropWhile isBlank)).2.length ≤ fuel :=
          (length_splitNumber_le _).trans ((List.length_dropWhile_le _ _).trans hrest)
        unfold lexWord
        rw [hdrop]
        dsimp only
        rw [hvalue]
        dsimp only
        obtain ⟨comments, hlex⟩ := ih hlength h
          { line with words := line.words ++ [⟨c.toUpper, value⟩] }
        refine ⟨comments, hlex.trans ?_⟩
        rw [hwords, List.append_assoc, List.singleton_append]

/-- Space at the head of a line holds no word. -/
theorem words_dropWhile {src : List Char} {words : List (Word K)}
    (h : Lexer.words (utf8 src) = words.map .ok) :
    Lexer.words (utf8 (src.dropWhile isWhitespace)) = words.map .ok := by
  induction src with
  | nil => exact h
  | cons c rest ih =>
    by_cases hc : isWhitespace c = true
    · rw [List.dropWhile_cons_of_pos hc]
      rcases words_cons h with ⟨-, h⟩ | ⟨rfl, -⟩ | ⟨rfl, -⟩ | ⟨-, hwhite, -⟩
      · exact ih h
      · exact absurd hc (by decide)
      · exact absurd hc (by decide)
      · exact absurd (hc.symm.trans hwhite) (Ne.symm Bool.false_ne_true)
    · rw [List.dropWhile_cons_of_neg hc]
      exact h

/-- **The import reads the words that the machine reads**, and no line that the machine reads
is marked as one to skip. -/
theorem lexLine_eq {src : List Char} {words : List (Word K)}
    (h : Lexer.words (utf8 src) = words.map .ok) :
    ∃ comments, lexLine src = .ok ⟨words, comments, false⟩ := by
  have hchars := words_dropWhile h
  unfold lexLine
  dsimp only
  split
  · rename_i rest hslash
    -- a slash is no word
    rw [hslash] at hchars
    rcases words_cons hchars with ⟨hc, -⟩ | ⟨hc, -⟩ | ⟨hc, -⟩ | ⟨hc, -⟩
    · exact absurd hc (by decide)
    · exact absurd hc (by decide)
    · exact absurd hc (by decide)
    · exact absurd hc (by decide)
  · exact lexFrom_eq src le_rfl hchars .empty

end Lines

end Galdr.Import
