import Mathlib

/-!
# Text

The operations on text that the program takes from its standard library: what
counts as white space, how a text is trimmed, and how an unsigned number is read.
A text is its list of characters.
-/

namespace Text

/-- `char::is_whitespace`: the Unicode property `White_Space`. -/
def isWhitespace (c : Char) : Bool :=
  (9 ≤ c.toNat && c.toNat ≤ 13) || c.toNat = 0x20 || c.toNat = 0x85 || c.toNat = 0xA0
    || c.toNat = 0x1680 || (0x2000 ≤ c.toNat && c.toNat ≤ 0x200A) || c.toNat = 0x2028
    || c.toNat = 0x2029 || c.toNat = 0x202F || c.toNat = 0x205F || c.toNat = 0x3000

/-- `str::trim`. -/
def trim (text : List Char) : List Char :=
  (text.dropWhile isWhitespace).rdropWhile isWhitespace

/-- `str::strip_prefix`. -/
def stripPrefix : List Char → List Char → Option (List Char)
  | [], text => some text
  | c :: rest, d :: text => if c = d then stripPrefix rest text else none
  | _ :: _, [] => none

/-- `str::parse` to an unsigned integer: an optional plus sign and at least one
digit, up to the greatest value of the type. -/
def parseUnsigned (max : ℕ) (text : List Char) : Option ℕ :=
  let digits := match text with
    | '+' :: rest => rest
    | _ => text
  if digits = [] ∨ ¬digits.all Char.isDigit then none
  else
    let n := Nat.ofDigitChars 10 digits 0
    if n ≤ max then some n else none

/-- A text without white space. -/
def Solid (text : List Char) : Prop := ∀ c ∈ text, isWhitespace c = false

theorem Solid.append {text text' : List Char} (h : Solid text) (h' : Solid text') :
    Solid (text ++ text') := fun c hc =>
  (List.mem_append.1 hc).elim (h c) (h' c)

/-- Nothing is trimmed of a text without white space. -/
theorem trim_eq_self {text : List Char} (h : Solid text) : trim text = text := by
  have hfront : text.dropWhile isWhitespace = text := by
    cases text with
    | nil => rfl
    | cons c rest =>
      exact List.dropWhile_cons_of_neg (by simp [h c (List.mem_cons_self ..)])
  unfold trim
  rw [hfront, List.rdropWhile_eq_self_iff]
  intro hne
  rw [h _ (List.getLast_mem hne)]
  exact Bool.false_ne_true

theorem trim_trim (text : List Char) : trim (trim text) = trim text := by
  have hfront : (trim text).dropWhile isWhitespace = trim text := by
    refine List.dropWhile_eq_self_iff.2 fun hpos => ?_
    obtain ⟨rest, hrest⟩ : trim text <+: text.dropWhile isWhitespace :=
      List.rdropWhile_prefix isWhitespace _
    have hlen : 0 < (text.dropWhile isWhitespace).length := by
      rw [← hrest, List.length_append]
      exact Nat.lt_add_right _ hpos
    have hget := List.dropWhile_get_zero_not isWhitespace text hlen
    rwa [List.get_eq_getElem, List.getElem_of_eq hrest.symm, List.getElem_append_left hpos]
      at hget
  rw [trim, hfront]
  exact List.rdropWhile_idempotent isWhitespace (text.dropWhile isWhitespace)

theorem isWhitespace_of_isDigit {c : Char} (h : c.isDigit = true) :
    isWhitespace c = false := by
  have hrange : 48 ≤ c.toNat ∧ c.toNat ≤ 57 := Char.isDigit_iff_toNat.1 h
  unfold isWhitespace
  simp only [Bool.or_eq_false_iff, Bool.and_eq_false_imp, decide_eq_true_eq,
    decide_eq_false_iff_not]
  omega

/-- A text of digits is solid. -/
theorem solid_of_isDigit {text : List Char} (h : ∀ c ∈ text, c.isDigit = true) :
    Solid text := fun c hc => isWhitespace_of_isDigit (h c hc)

theorem isDigit_of_mem_toDigits {n : ℕ} {c : Char} (h : c ∈ Nat.toDigits 10 n) :
    c.isDigit = true :=
  Nat.isDigit_of_mem_toDigits (by norm_num) le_rfl h

/-- Digits are read as the number they make, if it is within the type. -/
theorem parseUnsigned_digits {digits : List Char} (h : ∀ c ∈ digits, c.isDigit = true)
    (hne : digits ≠ []) (max : ℕ) :
    parseUnsigned max digits = if Nat.ofDigitChars 10 digits 0 ≤ max then
      some (Nat.ofDigitChars 10 digits 0) else none := by
  have hplus : ∀ rest, digits ≠ '+' :: rest := by
    rintro rest rfl
    exact absurd (h '+' List.mem_cons_self) (by decide)
  have hall : digits.all Char.isDigit = true := List.all_eq_true.mpr h
  unfold parseUnsigned
  split
  · rename_i rest
    exact absurd rfl (hplus rest)
  · simp [hne, hall]

/-- A printed number is read if it is within the type. -/
theorem parseUnsigned_toDigits_eq (max n : ℕ) :
    parseUnsigned max (Nat.toDigits 10 n) = if n ≤ max then some n else none := by
  have hvalue : Nat.ofDigitChars 10 (Nat.toDigits 10 n) 0 = n :=
    Nat.ofDigitChars_ten_toDigits
  rw [parseUnsigned_digits (fun c => isDigit_of_mem_toDigits) Nat.toDigits_ne_nil, hvalue]

/-- **A printed number is read as itself**, within the type. -/
theorem parseUnsigned_toDigits {max n : ℕ} (h : n ≤ max) :
    parseUnsigned max (Nat.toDigits 10 n) = some n := by
  rw [parseUnsigned_toDigits_eq, if_pos h]

end Text
