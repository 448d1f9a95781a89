import Galdr.Binary32
import Galdr.Libm
import Galdr.Text

/-!
# Numbers in decimal text

How the standard library prints a number with a fixed count of decimals, and how it
reads one. A number is printed as the nearest decimal of that count, half to even,
and read as the nearest number of the format; what is printed, read and printed again
is the text that was printed first (`F32.format_parse_format`), whatever the two
roundings did to the number.
-/

namespace Text

/-! ## Decimal digits -/

/-- The last digits of a number, as many as asked for. -/
def decimals : ℕ → ℕ → List Char
  | 0, _ => []
  | count + 1, n => decimals count (n / 10) ++ [Nat.digitChar (n % 10)]

theorem isDigit_of_mem_decimals {count n : ℕ} {c : Char} (h : c ∈ decimals count n) :
    c.isDigit = true := by
  induction count generalizing n with
  | zero => exact absurd h (by simp [decimals])
  | succ count ih =>
    unfold decimals at h
    rcases List.mem_append.1 h with h | h
    · exact ih h
    · rw [List.mem_singleton.1 h, Nat.isDigit_digitChar]
      exact decide_eq_true (Nat.mod_lt n (by norm_num))

theorem length_decimals (count n : ℕ) : (decimals count n).length = count := by
  induction count generalizing n with
  | zero => rfl
  | succ count ih =>
    unfold decimals
    rw [List.length_append, ih]
    rfl

theorem ofDigitChars_decimals (count n init : ℕ) :
    Nat.ofDigitChars 10 (decimals count n) init = init * 10 ^ count + n % 10 ^ count := by
  induction count generalizing n with
  | zero => simp [decimals, Nat.mod_one]
  | succ count ih =>
    have hlast : n % 10 < 10 := Nat.mod_lt n (by norm_num)
    unfold decimals
    rw [Nat.ofDigitChars_append, ih, Nat.ofDigitChars_cons_digitChar_of_lt_ten hlast,
      Nat.ofDigitChars_nil, pow_succ', Nat.mod_mul]
    ring

/-- A number of so many decimals, at least one. -/
def fixed (count n : ℕ) : List Char :=
  Nat.toDigits 10 (n / 10 ^ count) ++ '.' :: decimals count n

/-! ## Reading a decimal number -/

/-- The sign a text begins with, and what follows it. -/
def splitSign : List Char → Bool × List Char
  | '+' :: rest => (false, rest)
  | '-' :: rest => (true, rest)
  | text => (false, text)

/-- The exponent of a decimal number. -/
def parseExponent (text : List Char) : Option ℤ :=
  let (negative, digits) := splitSign text
  if digits = [] ∨ ¬digits.all Char.isDigit then none
  else
    let n : ℤ := Nat.ofDigitChars 10 digits 0
    some (if negative then -n else n)

/-- What a decimal number stands for. -/
def decimalValue (whole fraction : List Char) (exponent : ℤ) : NNRat :=
  (Nat.ofDigitChars 10 (whole ++ fraction) 0 : NNRat) * 10 ^ (exponent - fraction.length)

/-- The digits after a decimal point, and what follows them. -/
def splitFraction : List Char → List Char × List Char
  | '.' :: rest => (rest.takeWhile Char.isDigit, rest.dropWhile Char.isDigit)
  | text => ([], text)

/-- An unsigned decimal number: digits with a point among them, at least one, and an
exponent that may be left out. -/
def parseDecimal (text : List Char) : Option NNRat :=
  let whole := text.takeWhile Char.isDigit
  let (fraction, rest) := splitFraction (text.dropWhile Char.isDigit)
  if whole = [] ∧ fraction = [] then none
  else match rest with
    | [] => some (decimalValue whole fraction 0)
    | c :: rest =>
      if c = 'e' ∨ c = 'E' then (parseExponent rest).map (decimalValue whole fraction)
      else none

theorem takeWhile_digits {digits rest : List Char} (h : ∀ c ∈ digits, c.isDigit = true)
    (hrest : rest.head?.all (fun c => !c.isDigit)) :
    (digits ++ rest).takeWhile Char.isDigit = digits := by
  rw [List.takeWhile_append_of_pos h]
  cases rest with
  | nil => simp
  | cons c rest =>
    have hc : c.isDigit = false := by simpa using hrest
    rw [List.takeWhile_cons_of_neg (by simp [hc]), List.append_nil]

theorem dropWhile_digits {digits rest : List Char} (h : ∀ c ∈ digits, c.isDigit = true)
    (hrest : rest.head?.all (fun c => !c.isDigit)) :
    (digits ++ rest).dropWhile Char.isDigit = rest := by
  rw [List.dropWhile_append_of_pos h]
  cases rest with
  | nil => rfl
  | cons c rest =>
    have hc : c.isDigit = false := by simpa using hrest
    rw [List.dropWhile_cons_of_neg (by simp [hc])]

/-- **A printed decimal number is read as itself.** -/
theorem parseDecimal_fixed (count n : ℕ) :
    parseDecimal (fixed count n) = some ((n : NNRat) / 10 ^ count) := by
  have hwhole : ∀ c ∈ Nat.toDigits 10 (n / 10 ^ count), c.isDigit = true := fun c =>
    Nat.isDigit_of_mem_toDigits (by norm_num) le_rfl
  have hpoint : ('.' :: decimals count n).head?.all (fun c => !c.isDigit) = true := rfl
  have hfraction : ∀ c ∈ decimals count n, c.isDigit = true := fun c =>
    isDigit_of_mem_decimals
  have htake : (decimals count n).takeWhile Char.isDigit = decimals count n :=
    List.takeWhile_eq_self_iff.2 hfraction
  have hdrop : (decimals count n).dropWhile Char.isDigit = [] :=
    List.dropWhile_eq_nil_iff.2 hfraction
  have hvalue : Nat.ofDigitChars 10 (Nat.toDigits 10 (n / 10 ^ count) ++ decimals count n) 0
      = n := by
    rw [Nat.ofDigitChars_append, Nat.ofDigitChars_ten_toDigits, ofDigitChars_decimals,
      mul_comm, Nat.div_add_mod]
  unfold parseDecimal fixed
  rw [takeWhile_digits hwhole hpoint, dropWhile_digits hwhole hpoint]
  simp only [splitFraction, htake, hdrop, Nat.toDigits_ne_nil, false_and, if_false,
    decimalValue, hvalue, length_decimals, zero_sub, zpow_neg, zpow_natCast]
  rw [div_eq_mul_inv]

end Text

namespace F32

open Binary32 Text

/-- `str::parse` to a number of the format. -/
def parse (text : List Char) : Option F32 :=
  let (negative, rest) := splitSign text
  let word := rest.map Char.toLower
  if word = ['n', 'a', 'n'] then some nan
  else if word = ['i', 'n', 'f'] ∨ word = ['i', 'n', 'f', 'i', 'n', 'i', 't', 'y'] then
    some (inf negative)
  else (parseDecimal rest).map (ofRat negative)

/-- The sign of a printed number. -/
def sign (negative : Bool) : List Char := if negative then ['-'] else []

/-- `format!`, with so many decimals. -/
def format (count : ℕ) : F32 → List Char
  | nan => ['N', 'a', 'N']
  | inf negative => sign negative ++ ['i', 'n', 'f']
  | finite negative m => sign negative ++ fixed count (halfEven (m.value * 10 ^ count)).toNat

/-- What is printed of a finite number: its decimals, as a whole number. -/
def scaled (count : ℕ) (m : Magnitude) : ℕ := (halfEven (m.value * 10 ^ count)).toNat

theorem cast_scaled (count : ℕ) (m : Magnitude) :
    (scaled count m : ℚ) = halfEven (m.value * 10 ^ count) := by
  have hnonneg : 0 ≤ halfEven (m.value * 10 ^ count) :=
    halfEven_nonneg (mul_nonneg m.representable.nonneg (by positivity))
  unfold scaled
  exact_mod_cast Int.toNat_of_nonneg hnonneg

theorem format_finite (count : ℕ) (negative : Bool) (m : Magnitude) :
    (finite negative m).format count = sign negative ++ fixed count (scaled count m) := rfl

/-- The first character of a printed number is a digit. -/
theorem exists_fixed_eq_cons (count n : ℕ) :
    ∃ c rest, fixed count n = c :: rest ∧ c.isDigit = true := by
  unfold fixed
  cases hdigits : Nat.toDigits 10 (n / 10 ^ count) with
  | nil => exact absurd hdigits Nat.toDigits_ne_nil
  | cons c rest =>
    refine ⟨c, rest ++ '.' :: decimals count n, rfl, ?_⟩
    have hmem : c ∈ Nat.toDigits 10 (n / 10 ^ count) := by
      rw [hdigits]
      exact List.mem_cons_self ..
    exact Nat.isDigit_of_mem_toDigits (by norm_num) le_rfl hmem

theorem splitSign_sign_append {negative : Bool} {c : Char} {rest : List Char}
    (h : c.isDigit = true) : splitSign (sign negative ++ c :: rest) = (negative, c :: rest) := by
  cases negative with
  | true => rfl
  | false =>
    have hplus : c ≠ '+' := fun hc => absurd (hc ▸ h) (by decide)
    have hminus : c ≠ '-' := fun hc => absurd (hc ▸ h) (by decide)
    show splitSign (c :: rest) = _
    unfold splitSign
    split
    · rename_i hc
      exact absurd (List.cons.inj hc).1 hplus
    · rename_i hc
      exact absurd (List.cons.inj hc).1 hminus
    · rfl

theorem toLower_of_isDigit {c : Char} (h : c.isDigit = true) : c.toLower = c := by
  have hrange := Char.isDigit_iff_toNat.1 h
  have hupper : ¬(65 ≤ c.val ∧ c.val ≤ 90) := fun hupper => by
    have hlow : 65 ≤ c.toNat := UInt32.le_iff_toNat_le.1 hupper.1
    have hnine : c.toNat ≤ 57 := hrange.2
    omega
  exact dif_neg hupper

/-- **What is read of a printed number**: the nearest number to the decimal. -/
theorem parse_format_finite (count : ℕ) (negative : Bool) (m : Magnitude) :
    parse ((finite negative m).format count)
      = some (ofRat negative ((scaled count m : NNRat) / 10 ^ count)) := by
  obtain ⟨c, rest, hfixed, hdigit⟩ := exists_fixed_eq_cons count (scaled count m)
  have hlower : c.toLower = c := toLower_of_isDigit hdigit
  have hne : ∀ d tail, d.isDigit = false → (c :: rest).map Char.toLower ≠ d :: tail :=
    fun d tail hd heq => by
      rw [List.map_cons, hlower] at heq
      rw [(List.cons.inj heq).1] at hdigit
      rw [hdigit] at hd
      exact absurd hd (by decide)
  have hdecimal := parseDecimal_fixed count (scaled count m)
  rw [format_finite, hfixed]
  rw [hfixed] at hdecimal
  unfold parse
  rw [splitSign_sign_append hdigit]
  have hnan : (c :: rest).map Char.toLower ≠ ['n', 'a', 'n'] := hne 'n' _ (by decide)
  have hinf : (c :: rest).map Char.toLower ≠ ['i', 'n', 'f'] := hne 'i' _ (by decide)
  have hinfinity : (c :: rest).map Char.toLower ≠ ['i', 'n', 'f', 'i', 'n', 'i', 't', 'y'] :=
    hne 'i' _ (by decide)
  simp only [hnan, hinf, hinfinity, or_self, if_false, hdecimal, Option.map_some]

/-- A magnitude is short of the overflow by more than any decimal rounds it. -/
theorem Magnitude.add_one_lt (m : Magnitude) : m.value + 1 < 2 ^ (128 : ℤ) := by
  obtain ⟨n, hn, e, -, hhigh, hval⟩ := m.representable
  have hpow : (2 : ℚ) ^ e ≤ 2 ^ (104 : ℤ) := zpow_le_zpow_right₀ (by norm_num) hhigh
  have hn' : (n : ℚ) ≤ 2 ^ 24 - 1 := by
    have : n ≤ 2 ^ 24 - 1 := by omega
    have hcast : (n : ℚ) ≤ ((2 ^ 24 - 1 : ℕ) : ℚ) := by exact_mod_cast this
    refine hcast.trans (by norm_num)
  have hle : m.value ≤ (2 ^ 24 - 1) * 2 ^ (104 : ℤ) := by
    rw [hval]
    exact mul_le_mul hn' hpow (two_zpow_pos e).le (by norm_num)
  have hslack : ((2 : ℚ) ^ 24 - 1) * 2 ^ (104 : ℤ) + 1 < 2 ^ (128 : ℤ) := by norm_num
  linarith

/-- **A printed number is read within the format**, and prints as it was printed. -/
theorem round_scaled (count : ℕ) (m : Magnitude) :
    Binary32.round ((scaled count m : ℚ) / 10 ^ count) < 2 ^ (128 : ℤ)
      ∧ halfEven (Binary32.round ((scaled count m : ℚ) / 10 ^ count) * 10 ^ count)
        = halfEven (m.value * 10 ^ count) := by
  have hpow : (0 : ℚ) < 10 ^ count := by positivity
  have hone : (1 : ℚ) ≤ 10 ^ count := one_le_pow₀ (by norm_num)
  set q : ℚ := (scaled count m : ℚ) / 10 ^ count with hq
  have hscale : ∀ x : ℚ, |x * 10 ^ count - halfEven (m.value * 10 ^ count)|
      = |q - x| * 10 ^ count := fun x => by
    rw [← cast_scaled, ← abs_of_pos hpow, ← abs_mul, abs_of_pos hpow, sub_mul, hq,
      div_mul_cancel₀ _ hpow.ne', abs_sub_comm]
  have hnear : |q - Binary32.round q| ≤ |q - m.value| :=
    abs_sub_round_le (by positivity) m.representable
  have hhalf : |q - m.value| * 10 ^ count ≤ 1 / 2 := by
    rw [← hscale]
    exact abs_sub_halfEven_le _
  constructor
  · -- both roundings together move the number by less than one
    have hclose : |q - m.value| ≤ 1 / 2 := by
      refine le_trans ?_ hhalf
      exact le_mul_of_one_le_right (abs_nonneg _) hone
    have hlow := (abs_le.1 (hnear.trans hclose)).1
    have hhigh := (abs_le.1 hclose).2
    have := Magnitude.add_one_lt m
    linarith
  · refine halfEven_eq_of_abs_sub_le ?_
    rw [hscale, hscale]
    exact mul_le_mul_of_nonneg_right hnear hpow.le

/-- **Printed, read and printed again**, a finite number gives the text that was
printed first; what is read is finite, and zero where zeros were printed. -/
theorem format_parse_format (count : ℕ) (negative : Bool) (m : Magnitude) :
    ∃ n : Magnitude, parse ((finite negative m).format count) = some (finite negative n)
      ∧ (finite negative n).format count = (finite negative m).format count
      ∧ (n.value = 0 ↔ scaled count m = 0) := by
  obtain ⟨hfits, hagain⟩ := round_scaled count m
  have hcast : (((scaled count m : NNRat) / 10 ^ count : NNRat) : ℚ)
      = (scaled count m : ℚ) / 10 ^ count := by push_cast; rfl
  have hhalf : halfEven 0 = 0 := by exact_mod_cast halfEven_intCast 0
  rw [← hcast] at hfits hagain
  refine ⟨⟨_, representable_round (NNRat.coe_nonneg _) hfits⟩, ?_, ?_, fun hzero => ?_,
    fun hzero => ?_⟩
  · rw [parse_format_finite]
    unfold ofRat
    rw [dif_pos hfits]
  · show sign negative ++ fixed count (halfEven _).toNat = _
    rw [hagain]
    rfl
  · have hround : Binary32.round _ = 0 := hzero
    rw [hround, zero_mul, hhalf] at hagain
    unfold scaled
    rw [← hagain]
    rfl
  · show Binary32.round _ = 0
    rw [hcast, hzero, Nat.cast_zero, zero_div, round_zero]

/-- A magnitude prints as zeros up to a half of the last decimal. -/
theorem scaled_eq_zero_iff (count : ℕ) (m : Magnitude) :
    scaled count m = 0 ↔ m.value * 10 ^ count ≤ 1 / 2 := by
  have hnonneg : 0 ≤ m.value * 10 ^ count :=
    mul_nonneg m.representable.nonneg (by positivity)
  have hcast := cast_scaled count m
  constructor
  · intro hzero
    rw [hzero, Nat.cast_zero] at hcast
    have hle := abs_sub_halfEven_le (m.value * 10 ^ count)
    rw [← hcast, sub_zero, abs_of_nonneg hnonneg] at hle
    exact hle
  · intro hle
    have hzero : halfEven (m.value * 10 ^ count) = 0 := by
      refine halfEven_eq ?_
      rw [Int.cast_zero, sub_zero, abs_of_nonneg hnonneg]
      exact hle.lt_or_eq.imp id fun heq => ⟨heq, Even.zero⟩
    rw [hzero, Int.cast_zero] at hcast
    exact_mod_cast hcast

theorem solid_sign (negative : Bool) : Solid (sign negative) := by
  intro c hc
  cases negative with
  | false => exact absurd hc (by simp [sign])
  | true =>
    rw [List.mem_singleton.1 hc]
    rfl

/-- A printed number is solid. -/
theorem solid_format (count : ℕ) (x : F32) : Solid (x.format count) := by
  cases x with
  | nan =>
    have hword : ∀ c ∈ ['N', 'a', 'N'], isWhitespace c = false := by
      simp [isWhitespace]
    exact hword
  | inf negative =>
    have hword : ∀ c ∈ ['i', 'n', 'f'], isWhitespace c = false := by
      simp [isWhitespace]
    exact (solid_sign negative).append hword
  | finite negative m =>
    refine (solid_sign negative).append (Solid.append ?_ ?_)
    · exact solid_of_isDigit fun c hc => isDigit_of_mem_toDigits hc
    · intro c hc
      rcases List.mem_cons.1 hc with rfl | hc
      · rfl
      · exact isWhitespace_of_isDigit (isDigit_of_mem_decimals hc)

/-- **What is printed prints again**, whatever number it is read as. -/
theorem format_of_parse_format {count : ℕ} {x y : F32} (h : parse (x.format count) = some y) :
    y.format count = x.format count := by
  cases x with
  | nan =>
    obtain rfl : nan = y := Option.some.inj h
    rfl
  | inf negative =>
    obtain rfl : inf negative = y := by cases negative <;> exact Option.some.inj h
    rfl
  | finite negative m =>
    obtain ⟨n, hparse, hformat, -⟩ := format_parse_format count negative m
    rw [hparse] at h
    rw [← Option.some.inj h, hformat]

end F32
