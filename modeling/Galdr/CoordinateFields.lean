import Galdr.Gerber
import Galdr.GcodeImport

/-!
# Coordinate fields

A coordinate of a Gerber or a drill file is a run of digits with an implied decimal point, of which
the file leaves out the zeros of one side. `decodeZeroOmitted` puts the zeros back and reads a
number; a field with a point in it is read as it stands. What a format can write is read as what
was written, as long as it fits 64 bits. But no field is too long to be read, and behind a point
whatever the standard library reads is taken, a second sign and an exponent too (`exact_iff`).
-/

namespace Galdr.CoordinateField

open Gerber (GerberError LengthUnit)

/-- Which zeros a file leaves out. -/
inductive ZeroOmission
  | leading
  | trailing
  deriving DecidableEq

/-- Why a field cannot be read. -/
inductive CoordDecodeError
  /-- There is nothing in it. -/
  | empty
  /-- There is a point in it, but no decimal number. -/
  | invalidDecimal
  /-- There is something else than digits in it. -/
  | nonNumeric
  /-- It does not fit 64 bits. -/
  | outOfRange
  deriving DecidableEq

/-- Digits, filled up to a width with the zeros that were left out. In front of digits zeros do not
count, and so nothing is put there. -/
def padded (omission : ZeroOmission) (width : ℕ) (digits : List Char) : List Char :=
  match omission with
  | .leading => digits
  | .trailing => digits ++ List.replicate (width - digits.length) '0'

/-- The number of a field, in the units of the file. -/
def decodeZeroOmitted (word : List Char) (integerDigits decimalDigits : ℕ)
    (omission : ZeroOmission) : Except CoordDecodeError ℚ :=
  let word := Text.trim word
  if word = [] then .error .empty
  else
    let (negative, digits) := Text.splitSign word
    let sign : ℚ := if negative then -1 else 1
    -- a point is trusted, and the format does not matter
    if '.' ∈ digits then
      match Import.parseF64 (K := ℚ) digits with
      | none => .error .invalidDecimal
      | some value => .ok (sign * value)
    else if digits = [] ∨ ¬digits.all Char.isDigit then .error .nonNumeric
    else
      match Text.parseUnsigned (2 ^ 64 - 1)
        (padded omission (integerDigits + decimalDigits) digits) with
      | none => .error .outOfRange
      | some n => .ok (sign * (n / 10 ^ decimalDigits))

/-- The message of an error. -/
def decodeMessage (word : List Char) : CoordDecodeError → String
  | .empty => "empty coordinate word"
  | .invalidDecimal => "invalid decimal coordinate '" ++ String.ofList word ++ "'"
  | .nonNumeric => "non-numeric coordinate '" ++ String.ofList word ++ "'"
  | .outOfRange => "coordinate '" ++ String.ofList word ++ "' out of range"

/-- The millimetres of a unit. -/
def mmPerUnit : LengthUnit → ℚ
  | .millimeters => 1
  | .inches => 254 / 10

/-! ## The two parsers -/

/-- The format of the coordinates of a Gerber file. -/
structure CoordinateFormat where
  /-- The digits in front of the point. -/
  integerDigits : ℕ
  /-- The digits behind the point. -/
  decimalDigits : ℕ
  /-- The zeros that are left out. -/
  zeroOmission : ZeroOmission

/-- The number of a field of a Gerber file. -/
def CoordinateFormat.decode (f : CoordinateFormat) (word : List Char) (line : ℕ) :
    Except GerberError ℚ :=
  (decodeZeroOmitted word f.integerDigits f.decimalDigits f.zeroOmission).mapError
    fun err => .syntaxError line (decodeMessage word err)

/-- `Interpreter::decode`: a coordinate of a Gerber file, in millimetres. -/
def gerberCoordinate (format : Option CoordinateFormat) (unit : Option LengthUnit) (line : ℕ)
    (value : List Char) : Except GerberError ℚ :=
  match format with
  | none => .error .missingFormat
  | some format =>
    match format.decode value line with
    | .error e => .error e
    | .ok raw =>
      match unit with
      | none => .error (.syntaxError line "unit (MO) must be set before apertures or coordinates")
      | some u => .ok (raw * mmPerUnit u)

/-- A malformed construct of a drill file, and its line. -/
structure ExcellonSyntax where
  /-- The line. -/
  line : ℕ
  /-- What is wrong. -/
  message : String

/-- The format of the coordinates of a drill file. -/
structure NumberFormat where
  /-- The unit. -/
  unit : LengthUnit
  /-- The digits in front of the point. -/
  integerDigits : ℕ
  /-- The digits behind the point. -/
  decimalDigits : ℕ
  /-- The zeros that are left out. -/
  zeroSuppression : ZeroOmission

/-- The number of a field of a drill file. -/
def NumberFormat.decode (f : NumberFormat) (word : List Char) (line : ℕ) :
    Except ExcellonSyntax ℚ :=
  (decodeZeroOmitted word f.integerDigits f.decimalDigits f.zeroSuppression).mapError
    fun err => ⟨line, decodeMessage word err⟩

/-- A number of a drill file, in millimetres. -/
def NumberFormat.toMm (f : NumberFormat) (value : ℚ) : ℚ := value * mmPerUnit f.unit

/-! ## What a format writes -/

/-- The sign that is written. -/
def signText (n : ℤ) (plus : Bool) : List Char :=
  if n < 0 then ['-'] else if plus then ['+'] else []

/-- The digits of a number in a format, without so many of the zeros that may be left out. -/
def writtenDigits (omission : ZeroOmission) (width m dropped : ℕ) : List Char :=
  match omission with
  | .leading => (Text.decimals width m).drop dropped
  | .trailing => (Text.decimals width m).take (width - dropped)

/-- So many zeros may be left out, and a digit stays. -/
def MayDrop (omission : ZeroOmission) (width m dropped : ℕ) : Prop :=
  dropped < width ∧ match omission with
    | .leading => ∀ c ∈ (Text.decimals width m).take dropped, c = '0'
    | .trailing => ∀ c ∈ (Text.decimals width m).drop (width - dropped), c = '0'

/-- A field without the blanks around it and its sign. -/
def body (word : List Char) : List Char := (Text.splitSign (Text.trim word)).2

/-- The sign of a field. -/
def sign (word : List Char) : ℚ := if (Text.splitSign (Text.trim word)).1 then -1 else 1

/-- The number of the digits of a field, with the zeros that were left out. -/
def fieldNumber (omission : ZeroOmission) (width : ℕ) (word : List Char) : ℕ :=
  Nat.ofDigitChars 10 (padded omission width (body word)) 0

/-- What is promised of a reader of fields, in millimetres. -/
structure Exact (read : ZeroOmission → List Char → Option ℚ) (integerDigits decimalDigits : ℕ)
    (omission : ZeroOmission) (unit : LengthUnit) (word : List Char) : Prop where
  /-- What is written is read. -/
  written : ∀ (n : ℤ) (plus : Bool) (dropped : ℕ), n.natAbs < 10 ^ (integerDigits + decimalDigits) →
    MayDrop omission (integerDigits + decimalDigits) n.natAbs dropped →
    Text.trim word = signText n plus
      ++ writtenDigits omission (integerDigits + decimalDigits) n.natAbs dropped →
    read omission word = some (n / 10 ^ decimalDigits * mmPerUnit unit)
  /-- A field of full width is read alike whichever zeros are left out. -/
  full : (∀ c ∈ body word, c.isDigit) → (body word).length = integerDigits + decimalDigits →
    read .leading word = read .trailing word
  /-- A point overrides the format. -/
  decimal : ∀ whole fraction : List Char, (∀ c ∈ whole ++ fraction, c.isDigit) →
    whole ++ fraction ≠ [] → body word = whole ++ '.' :: fraction →
    read omission word = some (sign word
      * (Nat.ofDigitChars 10 (whole ++ fraction) 0 / 10 ^ fraction.length) * mmPerUnit unit)
  /-- A field with more digits than the format is an error. -/
  long : (∀ c ∈ body word, c.isDigit) → integerDigits + decimalDigits < (body word).length →
    read omission word = none
  /-- A field with another character is an error. -/
  other : (∃ c ∈ body word, ¬c.isDigit ∧ c ≠ '.') → read omission word = none

/-- Where the promise is kept. -/
structure Decodable (integerDigits decimalDigits : ℕ) (omission : ZeroOmission)
    (word : List Char) : Prop where
  /-- Digits that fit the format fit 64 bits. -/
  fits : (∀ c ∈ body word, c.isDigit) → (body word).length ≤ integerDigits + decimalDigits →
    fieldNumber omission (integerDigits + decimalDigits) word < 2 ^ 64
  /-- Digits that do not fit the format do not fit 64 bits either. -/
  long : (∀ c ∈ body word, c.isDigit) → integerDigits + decimalDigits < (body word).length →
    2 ^ 64 ≤ fieldNumber omission (integerDigits + decimalDigits) word
  /-- A field with a point and another character is not a number. -/
  decimal : '.' ∈ body word → (∃ c ∈ body word, ¬c.isDigit ∧ c ≠ '.') →
    Import.parseF64 (K := ℚ) (body word) = none

/-! ## Reading a field -/

variable {word : List Char} {integerDigits decimalDigits : ℕ} {omission : ZeroOmission}

theorem trim_ne_nil_of_body (h : body word ≠ []) : Text.trim word ≠ [] := by
  intro hnil
  refine h ?_
  unfold body
  rw [hnil]
  rfl

theorem point_notMem {digits : List Char} (h : ∀ c ∈ digits, c.isDigit = true) : '.' ∉ digits :=
  fun hmem => absurd (h '.' hmem) (by decide)

theorem padded_digits {digits : List Char} (h : ∀ c ∈ digits, c.isDigit = true) (width : ℕ) :
    ∀ c ∈ padded omission width digits, c.isDigit = true := by
  cases omission with
  | leading => exact h
  | trailing =>
    intro c hc
    rcases List.mem_append.mp hc with hc | hc
    · exact h c hc
    · rw [List.eq_of_mem_replicate hc]
      decide

theorem padded_ne_nil {digits : List Char} (h : digits ≠ []) (width : ℕ) :
    padded omission width digits ≠ [] := by
  cases omission with
  | leading => exact h
  | trailing => exact List.append_ne_nil_of_left_ne_nil h _

/-- Digits are read as a number, if that fits 64 bits. -/
theorem decode_digits (h : ∀ c ∈ body word, c.isDigit = true) (hne : body word ≠ []) :
    decodeZeroOmitted word integerDigits decimalDigits omission
      = if fieldNumber omission (integerDigits + decimalDigits) word < 2 ^ 64 then
          .ok (sign word * ((fieldNumber omission (integerDigits + decimalDigits) word : ℕ)
            / 10 ^ decimalDigits))
        else .error .outOfRange := by
  have hall : (body word).all Char.isDigit = true := List.all_eq_true.mpr h
  have hpoint := point_notMem h
  unfold body at hpoint hne hall
  unfold decodeZeroOmitted
  rw [if_neg (trim_ne_nil_of_body hne)]
  dsimp only
  rw [if_neg hpoint, if_neg (by simp [hne, hall])]
  change (match Text.parseUnsigned (2 ^ 64 - 1)
    (padded omission (integerDigits + decimalDigits) (body word)) with
    | none => _
    | some n => _) = _
  rw [Text.parseUnsigned_digits (padded_digits h _) (padded_ne_nil hne _)]
  change (match if fieldNumber omission (integerDigits + decimalDigits) word ≤ 2 ^ 64 - 1 then
    some (fieldNumber omission (integerDigits + decimalDigits) word) else none with
    | none => _
    | some n => _) = _
  by_cases hfits : fieldNumber omission (integerDigits + decimalDigits) word < 2 ^ 64
  · rw [if_pos (Nat.le_sub_one_of_lt hfits), if_pos hfits]
    rfl
  · rw [if_neg (fun hle => hfits (Nat.lt_of_le_sub_one (by norm_num) hle)), if_neg hfits]

/-- A field with a point is read as it stands. -/
theorem decode_point (h : '.' ∈ body word) :
    decodeZeroOmitted word integerDigits decimalDigits omission
      = match Import.parseF64 (K := ℚ) (body word) with
        | none => .error .invalidDecimal
        | some value => .ok (sign word * value) := by
  have hne : body word ≠ [] := List.ne_nil_of_mem h
  unfold decodeZeroOmitted
  rw [if_neg (trim_ne_nil_of_body hne)]
  exact if_pos h

/-- Another character is an error. -/
theorem decode_other (h : '.' ∉ body word) (hother : ∃ c ∈ body word, ¬c.isDigit = true) :
    decodeZeroOmitted word integerDigits decimalDigits omission = .error .nonNumeric := by
  obtain ⟨c, hc, hdigit⟩ := hother
  have hall : ¬(body word).all Char.isDigit = true := fun hall =>
    hdigit (List.all_eq_true.mp hall c hc)
  unfold decodeZeroOmitted
  rw [if_neg (trim_ne_nil_of_body (List.ne_nil_of_mem hc))]
  dsimp only
  exact (if_neg h).trans (if_pos (.inr hall))

theorem splitSign_of_ne {text : List Char} (hplus : ∀ rest, text ≠ '+' :: rest)
    (hminus : ∀ rest, text ≠ '-' :: rest) : Text.splitSign text = (false, text) := by
  unfold Text.splitSign
  split
  · rename_i rest
    exact absurd rfl (hplus rest)
  · rename_i rest
    exact absurd rfl (hminus rest)
  · rfl

theorem parseDecimal_point {whole fraction : List Char}
    (h : ∀ c ∈ whole ++ fraction, c.isDigit = true) (hne : whole ++ fraction ≠ []) :
    Text.parseDecimal (whole ++ '.' :: fraction)
      = some ((Nat.ofDigitChars 10 (whole ++ fraction) 0 : NNRat) / 10 ^ fraction.length) := by
  have hwhole : ∀ c ∈ whole, c.isDigit = true := fun c hc => h c (List.mem_append_left _ hc)
  have hfraction : ∀ c ∈ fraction, c.isDigit = true := fun c hc => h c (List.mem_append_right _ hc)
  have hpoint : ('.' :: fraction).head?.all (fun c => !c.isDigit) = true := rfl
  have htake : fraction.takeWhile Char.isDigit = fraction := List.takeWhile_eq_self_iff.2 hfraction
  have hdrop : fraction.dropWhile Char.isDigit = [] := List.dropWhile_eq_nil_iff.2 hfraction
  have hnonempty : ¬(whole = [] ∧ fraction = []) := fun hnil =>
    hne (List.append_eq_nil_iff.mpr hnil)
  unfold Text.parseDecimal
  rw [Text.takeWhile_digits hwhole hpoint, Text.dropWhile_digits hwhole hpoint]
  simp only [Text.splitFraction, htake, hdrop, hnonempty, if_false, Text.decimalValue, zero_sub,
    zpow_neg, zpow_natCast]
  rw [div_eq_mul_inv]

theorem parseF64_decimal {whole fraction : List Char}
    (h : ∀ c ∈ whole ++ fraction, c.isDigit = true) (hne : whole ++ fraction ≠ []) :
    Import.parseF64 (K := ℚ) (whole ++ '.' :: fraction)
      = some ((Nat.ofDigitChars 10 (whole ++ fraction) 0 : ℚ) / 10 ^ fraction.length) := by
  have hhead {c : Char} (hdigit : ¬c.isDigit = true) (hpoint : c ≠ '.') (rest : List Char) :
      whole ++ '.' :: fraction ≠ c :: rest := by
    intro heq
    cases whole with
    | nil => exact hpoint (List.cons.inj heq).1.symm
    | cons first others =>
      have hfirst : c = first := (List.cons.inj heq).1.symm
      exact hdigit (hfirst ▸ h first List.mem_cons_self)
  unfold Import.parseF64
  rw [splitSign_of_ne (hhead (by decide) (by decide)) (hhead (by decide) (by decide))]
  dsimp only
  rw [parseDecimal_point h hne, Option.map_some, if_neg Bool.false_ne_true]
  push_cast
  rfl

/-! ## Both parsers -/

/-- What a parser reads, in millimetres. -/
def readMm (integerDigits decimalDigits : ℕ) (unit : LengthUnit) (omission : ZeroOmission)
    (word : List Char) : Option ℚ :=
  (decodeZeroOmitted word integerDigits decimalDigits omission).toOption.map (· * mmPerUnit unit)

/-- What the Gerber parser reads. -/
def gerberMm (integerDigits decimalDigits : ℕ) (unit : LengthUnit) (line : ℕ)
    (omission : ZeroOmission) (word : List Char) : Option ℚ :=
  (gerberCoordinate (some ⟨integerDigits, decimalDigits, omission⟩) (some unit) line word).toOption

/-- What the drill parser reads. -/
def excellonMm (integerDigits decimalDigits : ℕ) (unit : LengthUnit) (line : ℕ)
    (omission : ZeroOmission) (word : List Char) : Option ℚ :=
  let format : NumberFormat := ⟨unit, integerDigits, decimalDigits, omission⟩
  (format.decode word line).toOption.map format.toMm

/-- **The two parsers read alike.** -/
theorem gerberMm_eq (integerDigits decimalDigits : ℕ) (unit : LengthUnit) (line : ℕ) :
    gerberMm integerDigits decimalDigits unit line = readMm integerDigits decimalDigits unit := by
  funext omission word
  unfold gerberMm readMm gerberCoordinate CoordinateFormat.decode
  dsimp only
  cases decodeZeroOmitted word integerDigits decimalDigits omission with
  | error e => rfl
  | ok value => rfl

theorem excellonMm_eq (integerDigits decimalDigits : ℕ) (unit : LengthUnit) (line : ℕ) :
    excellonMm integerDigits decimalDigits unit line = readMm integerDigits decimalDigits unit := by
  funext omission word
  unfold excellonMm readMm NumberFormat.decode
  dsimp only
  cases decodeZeroOmitted word integerDigits decimalDigits omission with
  | error e => rfl
  | ok value => rfl

/-! ## What is read of what is written -/

theorem isDigit_writtenDigits (omission : ZeroOmission) (width m dropped : ℕ) :
    ∀ c ∈ writtenDigits omission width m dropped, c.isDigit = true := by
  intro c hc
  cases omission with
  | leading => exact Text.isDigit_of_mem_decimals (List.mem_of_mem_drop hc)
  | trailing => exact Text.isDigit_of_mem_decimals (List.mem_of_mem_take hc)

theorem length_writtenDigits (omission : ZeroOmission) (width m dropped : ℕ) :
    (writtenDigits omission width m dropped).length = width - dropped := by
  cases omission with
  | leading => rw [writtenDigits, List.length_drop, Text.length_decimals]
  | trailing =>
    rw [writtenDigits, List.length_take, Text.length_decimals, min_eq_left (Nat.sub_le _ _)]

/-- The zeros that were left out are put back. -/
theorem ofDigitChars_padded {width m dropped : ℕ} (hm : m < 10 ^ width)
    (hdrop : MayDrop omission width m dropped) :
    Nat.ofDigitChars 10 (padded omission width (writtenDigits omission width m dropped)) 0 = m := by
  have hvalue : Nat.ofDigitChars 10 (Text.decimals width m) 0 = m := by
    rw [Text.ofDigitChars_decimals, Nat.zero_mul, Nat.zero_add, Nat.mod_eq_of_lt hm]
  obtain ⟨hlt, hzeros⟩ := hdrop
  cases omission with
  | leading =>
    have hfront : (Text.decimals width m).take dropped = List.replicate dropped '0' := by
      refine List.eq_replicate_iff.mpr ⟨?_, hzeros⟩
      rw [List.length_take, Text.length_decimals, min_eq_left hlt.le]
    calc Nat.ofDigitChars 10 ((Text.decimals width m).drop dropped) 0
        _ = Nat.ofDigitChars 10 ((Text.decimals width m).take dropped
            ++ (Text.decimals width m).drop dropped) 0 := by
          rw [Nat.ofDigitChars_append, hfront, Nat.ofDigitChars_replicate_zero, Nat.mul_zero]
        _ = m := by rw [List.take_append_drop, hvalue]
  | trailing =>
    have hback : (Text.decimals width m).drop (width - dropped) = List.replicate dropped '0' := by
      refine List.eq_replicate_iff.mpr ⟨?_, hzeros⟩
      rw [List.length_drop, Text.length_decimals]
      omega
    have hwidth : width - (writtenDigits .trailing width m dropped).length = dropped := by
      rw [length_writtenDigits]
      omega
    have hall : padded .trailing width (writtenDigits .trailing width m dropped)
        = Text.decimals width m := by
      unfold padded
      dsimp only
      rw [hwidth, ← hback]
      exact List.take_append_drop _ _
    rw [hall, hvalue]

theorem splitSign_signText (n : ℤ) (plus : Bool) {digits : List Char}
    (h : ∀ c ∈ digits, c.isDigit = true) :
    Text.splitSign (signText n plus ++ digits) = (decide (n < 0), digits) := by
  unfold signText
  by_cases hneg : n < 0
  · rw [if_pos hneg, decide_eq_true hneg]
    rfl
  · rw [if_neg hneg, decide_eq_false hneg]
    cases plus with
    | true => rfl
    | false =>
      refine splitSign_of_ne ?_ ?_
      · rintro rest rfl
        exact absurd (h '+' List.mem_cons_self) (by decide)
      · rintro rest rfl
        exact absurd (h '-' List.mem_cons_self) (by decide)

theorem cast_signed (n : ℤ) :
    (if decide (n < 0) = true then (-1 : ℚ) else 1) * (n.natAbs : ℚ) = n := by
  by_cases hneg : n < 0
  · rw [decide_eq_true hneg, if_pos rfl, neg_one_mul, Nat.cast_natAbs, abs_of_neg hneg,
      Int.cast_neg, neg_neg]
  · rw [decide_eq_false hneg, if_neg Bool.false_ne_true, one_mul, Nat.cast_natAbs,
      abs_of_nonneg (not_lt.mp hneg)]

/-! ## What is written of what is read -/

theorem digitChar_of_isDigit {c : Char} (h : c.isDigit = true) :
    c.toNat - '0'.toNat < 10 ∧ Nat.digitChar (c.toNat - '0'.toNat) = c := by
  have hrange : 48 ≤ c.toNat ∧ c.toNat ≤ 57 := Char.isDigit_iff_toNat.1 h
  have hzero : '0'.toNat = 48 := rfl
  obtain ⟨d, hd, hlt⟩ : ∃ d, c.toNat = 48 + d ∧ d < 10 := ⟨c.toNat - 48, by omega, by omega⟩
  have hc : c = Char.ofNat (48 + d) := by rw [← hd, Char.ofNat_toNat]
  rw [hd, hzero, Nat.add_sub_cancel_left]
  refine ⟨hlt, ?_⟩
  rw [hc]
  interval_cases d <;> rfl

/-- Digits are the decimals of their number. -/
theorem decimals_ofDigitChars {digits : List Char} (h : ∀ c ∈ digits, c.isDigit = true) :
    Text.decimals digits.length (Nat.ofDigitChars 10 digits 0) = digits
      ∧ Nat.ofDigitChars 10 digits 0 < 10 ^ digits.length := by
  induction digits using List.reverseRecOn with
  | nil => exact ⟨rfl, by decide⟩
  | append_singleton digits c ih =>
    obtain ⟨hdigits, hlt⟩ := ih fun d hd => h d (List.mem_append_left _ hd)
    obtain ⟨hc, hchar⟩ := digitChar_of_isDigit (h c (by simp))
    have hvalue : Nat.ofDigitChars 10 (digits ++ [c]) 0
        = 10 * Nat.ofDigitChars 10 digits 0 + (c.toNat - '0'.toNat) := by
      rw [Nat.ofDigitChars_append, Nat.ofDigitChars_cons, Nat.ofDigitChars_nil]
    rw [hvalue, List.length_append, List.length_singleton]
    constructor
    · rw [Text.decimals]
      have hdiv : (10 * Nat.ofDigitChars 10 digits 0 + (c.toNat - '0'.toNat)) / 10
          = Nat.ofDigitChars 10 digits 0 := by omega
      have hmod : (10 * Nat.ofDigitChars 10 digits 0 + (c.toNat - '0'.toNat)) % 10
          = c.toNat - '0'.toNat := by omega
      rw [hdiv, hmod, hdigits, hchar]
    · rw [pow_succ]
      omega

/-- The digits of a field, with all its zeros. -/
def full (omission : ZeroOmission) (width : ℕ) (digits : List Char) : List Char :=
  match omission with
  | .leading => List.replicate (width - digits.length) '0' ++ digits
  | .trailing => digits ++ List.replicate (width - digits.length) '0'

theorem full_spec {width : ℕ} {digits : List Char} (h : ∀ c ∈ digits, c.isDigit = true)
    (hlen : digits.length ≤ width) :
    (∀ c ∈ full omission width digits, c.isDigit = true)
      ∧ (full omission width digits).length = width
      ∧ Nat.ofDigitChars 10 (full omission width digits) 0
        = Nat.ofDigitChars 10 (padded omission width digits) 0 := by
  have hzero : ∀ c ∈ List.replicate (width - digits.length) '0', c.isDigit = true := by
    intro c hc
    rw [List.eq_of_mem_replicate hc]
    decide
  cases omission with
  | leading =>
    refine ⟨fun c hc => (List.mem_append.mp hc).elim (hzero c) (h c), ?_, ?_⟩
    · simp only [full, List.length_append, List.length_replicate]
      omega
    · simp only [full, padded]
      rw [Nat.ofDigitChars_append, Nat.ofDigitChars_replicate_zero, Nat.mul_zero]
  | trailing =>
    refine ⟨fun c hc => (List.mem_append.mp hc).elim (h c) (hzero c), ?_, rfl⟩
    simp only [full, List.length_append, List.length_replicate]
    omega

theorem trim_eq_sign_body (word : List Char) : ∃ plus : Bool, Text.trim word
    = (if (Text.splitSign (Text.trim word)).1 then ['-'] else if plus then ['+'] else [])
      ++ body word := by
  unfold body Text.splitSign
  split
  · rename_i rest heq
    exact ⟨true, heq⟩
  · rename_i rest heq
    exact ⟨true, heq⟩
  · exact ⟨false, rfl⟩

/-- Digits of a field, as they would be written. -/
theorem exists_written {width : ℕ} (h : ∀ c ∈ body word, c.isDigit = true) (hne : body word ≠ [])
    (hlen : (body word).length ≤ width) (hpos : fieldNumber omission width word ≠ 0) :
    ∃ (n : ℤ) (plus : Bool) (dropped : ℕ), n.natAbs < 10 ^ width
      ∧ MayDrop omission width n.natAbs dropped
      ∧ Text.trim word = signText n plus ++ writtenDigits omission width n.natAbs dropped := by
  obtain ⟨plus, hword⟩ := trim_eq_sign_body word
  obtain ⟨hfull, hwidth, hnumber⟩ := @full_spec omission _ _ h hlen
  obtain ⟨hdecimals, hlt⟩ := decimals_ofDigitChars hfull
  rw [hwidth, hnumber] at hdecimals hlt
  have hlength : 0 < (body word).length := List.length_pos_of_ne_nil hne
  change Text.decimals width (fieldNumber omission width word) = _ at hdecimals
  set number := fieldNumber omission width word with hset
  set negative := (Text.splitSign (Text.trim word)).1 with hnegative
  have habs : (if negative then -(number : ℤ) else number).natAbs = number := by
    split
    · rw [Int.natAbs_neg, Int.natAbs_natCast]
    · rw [Int.natAbs_natCast]
  have hsign : signText (if negative then -(number : ℤ) else number) plus
      = if negative then ['-'] else if plus then ['+'] else [] := by
    unfold signText
    cases negative with
    | true => exact if_pos (by simp; omega)
    | false => exact if_neg (by simp)
  refine ⟨if negative then -(number : ℤ) else number, plus, width - (body word).length, ?_, ?_, ?_⟩
  · rw [habs]
    exact hlt
  · rw [habs]
    refine ⟨by omega, ?_⟩
    rw [hdecimals]
    cases omission with
    | leading =>
      simp only [full]
      rw [List.take_left' (List.length_replicate ..)]
      exact fun c hc => List.eq_of_mem_replicate hc
    | trailing =>
      simp only [full]
      rw [Nat.sub_sub_self hlen, List.drop_left' rfl]
      exact fun c hc => List.eq_of_mem_replicate hc
  · rw [habs, hsign, hword]
    congr 1
    unfold writtenDigits
    rw [hdecimals]
    cases omission with
    | leading =>
      simp only [full]
      exact (List.drop_left' (List.length_replicate ..)).symm
    | trailing =>
      simp only [full]
      rw [Nat.sub_sub_self hlen]
      exact (List.take_left' rfl).symm

/-! ## What is promised -/

theorem fieldNumber_of_long {width : ℕ} (h : width ≤ (body word).length) (omission : ZeroOmission) :
    fieldNumber omission width word = Nat.ofDigitChars 10 (body word) 0 := by
  cases omission with
  | leading => rfl
  | trailing =>
    unfold fieldNumber padded
    rw [Nat.sub_eq_zero_of_le h]
    exact congrArg (Nat.ofDigitChars 10 · 0) (List.append_nil _)

theorem readMm_digits (h : ∀ c ∈ body word, c.isDigit = true) (hne : body word ≠ [])
    (unit : LengthUnit) : readMm integerDigits decimalDigits unit omission word
      = if fieldNumber omission (integerDigits + decimalDigits) word < 2 ^ 64 then
          some (sign word * (fieldNumber omission (integerDigits + decimalDigits) word
            / 10 ^ decimalDigits) * mmPerUnit unit)
        else none := by
  unfold readMm
  rw [decode_digits h hne]
  split
  · rfl
  · rfl

theorem readMm_nil (h : body word = []) (unit : LengthUnit) :
    readMm integerDigits decimalDigits unit omission word = none := by
  unfold readMm decodeZeroOmitted
  by_cases hnil : Text.trim word = []
  · rw [if_pos hnil]
    rfl
  · unfold body at h
    rw [if_neg hnil]
    dsimp only
    rw [h, if_neg List.not_mem_nil, if_pos (.inl rfl)]
    rfl

/-- **A field is read as promised** exactly where it is decodable. -/
theorem exact_readMm_iff (integerDigits decimalDigits : ℕ) (omission : ZeroOmission)
    (unit : LengthUnit) (word : List Char) :
    Exact (readMm integerDigits decimalDigits unit) integerDigits decimalDigits omission unit word
      ↔ Decodable integerDigits decimalDigits omission word := by
  constructor
  · intro hexact
    refine ⟨fun hdigits hlen => ?_, fun hdigits hlen => ?_, fun hpoint hother => ?_⟩
    · by_contra hlarge
      have hpos : fieldNumber omission (integerDigits + decimalDigits) word ≠ 0 := by
        intro hzero
        rw [hzero] at hlarge
        exact hlarge (by norm_num)
      have hne : body word ≠ [] := by
        intro hnil
        refine hpos ?_
        unfold fieldNumber
        rw [hnil]
        cases omission with
        | leading => rfl
        | trailing => simp [padded]
      obtain ⟨n, plus, dropped, hn, hdrop, hword⟩ := exists_written hdigits hne hlen hpos
      have hread := hexact.written n plus dropped hn hdrop hword
      rw [readMm_digits hdigits hne, if_neg hlarge] at hread
      cases hread
    · by_contra hsmall
      have hne : body word ≠ [] := List.ne_nil_of_length_pos (Nat.zero_lt_of_lt hlen)
      have hread := hexact.long hdigits hlen
      rw [readMm_digits hdigits hne, if_pos (not_le.mp hsmall)] at hread
      cases hread
    · cases hparse : Import.parseF64 (K := ℚ) (body word) with
      | none => rfl
      | some value =>
        have hread := hexact.other hother
        unfold readMm at hread
        rw [decode_point hpoint, hparse] at hread
        cases hread
  · intro hdecodable
    refine ⟨fun n plus dropped hn hdrop hword => ?_, fun hdigits hlen => ?_,
      fun whole fraction hdigits hne hbody => ?_, fun hdigits hlen => ?_, fun hother => ?_⟩
    · have hdigits := isDigit_writtenDigits omission (integerDigits + decimalDigits) n.natAbs
        dropped
      have hsplit := splitSign_signText n plus hdigits
      rw [← hword] at hsplit
      have hbody : body word
          = writtenDigits omission (integerDigits + decimalDigits) n.natAbs dropped :=
        congrArg Prod.snd hsplit
      have hsign : sign word = if decide (n < 0) = true then -1 else 1 := by
        unfold sign
        rw [hsplit]
      have hlength := length_writtenDigits omission (integerDigits + decimalDigits) n.natAbs dropped
      have hnumber : fieldNumber omission (integerDigits + decimalDigits) word = n.natAbs := by
        unfold fieldNumber
        rw [hbody]
        exact ofDigitChars_padded hn hdrop
      rw [← hbody] at hdigits hlength
      have hne : body word ≠ [] := by
        have hlt := hdrop.1
        exact List.ne_nil_of_length_pos (by omega)
      have hfits := hdecodable.fits hdigits (by omega)
      rw [readMm_digits hdigits hne, if_pos hfits, hnumber, hsign, ← mul_div_assoc, cast_signed]
    · by_cases hne : body word = []
      · rw [readMm_nil hne, readMm_nil hne]
      · rw [readMm_digits hdigits hne, readMm_digits hdigits hne, fieldNumber_of_long hlen.ge,
          fieldNumber_of_long hlen.ge]
    · have hpoint : '.' ∈ body word := by
        rw [hbody]
        exact List.mem_append_right _ List.mem_cons_self
      unfold readMm
      rw [decode_point hpoint, hbody, parseF64_decimal hdigits hne]
      rfl
    · by_cases hne : body word = []
      · exact readMm_nil hne unit
      · rw [readMm_digits hdigits hne, if_neg (not_lt.mpr (hdecodable.long hdigits hlen))]
    · unfold readMm
      by_cases hpoint : '.' ∈ body word
      · rw [decode_point hpoint, hdecodable.decimal hpoint hother]
        rfl
      · obtain ⟨c, hc, hdigit, -⟩ := hother
        rw [decode_other hpoint ⟨c, hc, hdigit⟩]
        rfl

/-- **Both parsers read a field as promised** exactly where it is decodable: no digits that fit the
format overflow 64 bits, and no longer ones fit them, and behind a point there is no sign and no
exponent that the standard library takes. -/
theorem exact_iff (integerDigits decimalDigits : ℕ) (omission : ZeroOmission) (unit : LengthUnit)
    (line : ℕ) (word : List Char) :
    (Exact (gerberMm integerDigits decimalDigits unit line) integerDigits decimalDigits omission
        unit word
      ∧ Exact (excellonMm integerDigits decimalDigits unit line) integerDigits decimalDigits
        omission unit word)
      ↔ Decodable integerDigits decimalDigits omission word := by
  rw [gerberMm_eq, excellonMm_eq, and_self]
  exact exact_readMm_iff integerDigits decimalDigits omission unit word

/-- Nothing is trimmed of digits, and they have no sign. -/
theorem body_of_digits {digits : List Char} (h : ∀ c ∈ digits, c.isDigit = true) :
    body digits = digits := by
  unfold body
  rw [Text.trim_eq_self fun c hc => Text.isWhitespace_of_isDigit (h c hc)]
  exact congrArg Prod.snd (splitSign_signText 0 false h)

/-- **A field with a digit too many is read**, ten times too large. -/
theorem not_exact_seven_digits :
    ¬∀ (integerDigits decimalDigits : ℕ) (omission : ZeroOmission) (unit : LengthUnit) (line : ℕ)
      (word : List Char),
      Exact (gerberMm integerDigits decimalDigits unit line) integerDigits decimalDigits omission
          unit word
        ∧ Exact (excellonMm integerDigits decimalDigits unit line) integerDigits decimalDigits
          omission unit word := by
  intro h
  -- the digits 2500000, in a format of two digits in front of the point and four behind it
  have hall : ∀ c ∈ Text.decimals 7 2500000, c.isDigit = true := fun c =>
    Text.isDigit_of_mem_decimals
  have hbody := body_of_digits hall
  have hlength : (body (Text.decimals 7 2500000)).length = 7 := by
    rw [hbody, Text.length_decimals]
  have hdigits := hbody.symm ▸ hall
  have hnumber : fieldNumber .leading (2 + 4) (Text.decimals 7 2500000) = 2500000 := by
    rw [fieldNumber_of_long (by omega), hbody, Text.ofDigitChars_decimals]
    rfl
  have hnone := (h 2 4 .leading .millimeters 1 (Text.decimals 7 2500000)).1.long hdigits (by omega)
  rw [gerberMm_eq, readMm_digits hdigits (List.ne_nil_of_length_pos (by omega)), hnumber,
    if_pos (by norm_num)] at hnone
  cases hnone

end Galdr.CoordinateField
