import Galdr.FloatText

/-!
# Double precision numbers

The numbers of the host. A finite number is the rational it stands for, the sign of a
zero left out, and what a computation gives is the rational rounded to the format:
within its 53 bits the rounding is off by a part in `2 ^ 53` of the number, and an
integer of 53 bits is not rounded.
-/

namespace Binary64

open Binary32 (halfEven)

/-- The exponent of the last bit of the significand that a number is rounded to. -/
def exponent (q : ℚ) : ℤ := max (-1074) (Int.log 2 |q| - 52)

/-- A number rounded to its significand, half to even. -/
def round (q : ℚ) : ℚ := halfEven (q / 2 ^ exponent q) * 2 ^ exponent q

/-- The last bit is a part of the number, unless it is the least of the format. -/
theorem two_zpow_exponent_le {q : ℚ} (hq : q ≠ 0) :
    (2 : ℚ) ^ exponent q ≤ |q| / 2 ^ 52 + 2 ^ (-1074 : ℤ) := by
  have htiny : (0 : ℚ) < 2 ^ (-1074 : ℤ) := zpow_pos (by norm_num) _
  have hpart : 0 ≤ |q| / 2 ^ 52 := by positivity
  unfold exponent
  rcases max_choice (-1074) (Int.log 2 |q| - 52) with he | he
  · rw [he]
    exact le_add_of_nonneg_left hpart
  · have hlog : (2 : ℚ) ^ Int.log 2 |q| ≤ |q| := by
      exact_mod_cast Int.zpow_log_le_self (b := 2) (by norm_num) (abs_pos.2 hq)
    have hfit : (2 : ℚ) ^ (Int.log 2 |q| - 52) ≤ |q| / 2 ^ 52 := by
      rw [zpow_sub₀ (by norm_num)]
      exact div_le_div_of_nonneg_right hlog (by positivity)
    rw [he]
    exact hfit.trans (le_add_of_nonneg_right htiny.le)

/-- **Rounding is off by a part in `2 ^ 53`**, unless the number is below the format. -/
theorem abs_round_sub_le (q : ℚ) : |round q - q| ≤ |q| / 2 ^ 53 + 2 ^ (-1075 : ℤ) := by
  rcases eq_or_ne q 0 with rfl | hq
  · have hzero : round 0 = 0 := by
      unfold round
      rw [zero_div, show halfEven 0 = 0 by exact_mod_cast Binary32.halfEven_intCast 0,
        Int.cast_zero, zero_mul]
    rw [hzero, sub_zero, abs_zero, zero_div, zero_add]
    exact zpow_nonneg (by norm_num) _
  have hpos : (0 : ℚ) < 2 ^ exponent q := zpow_pos (by norm_num) _
  have hgrid : round q - q
      = (halfEven (q / 2 ^ exponent q) - q / 2 ^ exponent q) * 2 ^ exponent q := by
    unfold round
    rw [sub_mul, div_mul_cancel₀ _ hpos.ne']
  have hhalf := Binary32.abs_sub_halfEven_le (q / 2 ^ exponent q)
  rw [abs_sub_comm] at hhalf
  have hleast : (2 : ℚ) ^ (-1074 : ℤ) = 2 * 2 ^ (-1075 : ℤ) :=
    zpow_one_add₀ (by norm_num) (-1075)
  calc |round q - q|
      = |halfEven (q / 2 ^ exponent q) - q / 2 ^ exponent q| * 2 ^ exponent q := by
        rw [hgrid, abs_mul, abs_of_pos hpos]
    _ ≤ 1 / 2 * (|q| / 2 ^ 52 + 2 ^ (-1074 : ℤ)) :=
        mul_le_mul hhalf (two_zpow_exponent_le hq) hpos.le (by norm_num)
    _ = |q| / 2 ^ 53 + 2 ^ (-1075 : ℤ) := by
        rw [hleast]
        ring

/-- What is on the grid of its significand is not rounded. -/
theorem round_eq_of_grid {q : ℚ} {n : ℤ} (h : q = n * 2 ^ exponent q) : round q = q := by
  have hpos : (0 : ℚ) < 2 ^ exponent q := zpow_pos (by norm_num) _
  have hn : q / 2 ^ exponent q = n := (div_eq_iff hpos.ne').2 h
  unfold round
  rw [hn, Binary32.halfEven_intCast, ← h]

/-- An integer below `2 ^ 53` is not rounded. -/
theorem round_intCast {n : ℤ} (h : |n| < 2 ^ 53) : round n = n := by
  rcases eq_or_ne n 0 with rfl | hn
  · exact round_eq_of_grid (n := 0) (by simp)
  have hcast : |(n : ℚ)| = (n.natAbs : ℚ) := by
    rw [← Int.cast_abs, Int.abs_eq_natAbs, Int.cast_natCast]
  have hsmall : n.natAbs < 2 ^ 53 := by
    rw [Int.abs_eq_natAbs] at h
    exact_mod_cast h
  have hlog : Nat.log 2 n.natAbs ≤ 52 :=
    Nat.lt_succ_iff.1 (Nat.log_lt_of_lt_pow (Int.natAbs_ne_zero.2 hn) hsmall)
  have he : exponent n ≤ 0 := by
    unfold exponent
    rw [hcast, Int.log_natCast]
    omega
  refine round_eq_of_grid (n := n * 2 ^ (-exponent n).toNat) ?_
  have hexp : ((-exponent n).toNat : ℤ) = -exponent n := Int.toNat_of_nonneg (by omega)
  push_cast
  rw [mul_assoc, ← zpow_natCast, hexp, ← zpow_add₀ (by norm_num), neg_add_cancel, zpow_zero,
    mul_one]

end Binary64

/-- A number of the host. -/
inductive F64
  /-- Not a number. -/
  | nan
  /-- An infinity, by its sign. -/
  | inf (negative : Bool)
  /-- A finite number, by its value. -/
  | finite (value : ℚ)
  deriving DecidableEq

namespace F64

open Text

/-- The number that a rational is rounded to. -/
def ofRat (q : ℚ) : F64 :=
  if |Binary64.round q| < 2 ^ (1024 : ℤ) then finite (Binary64.round q) else inf (decide (q < 0))

/-- `str::parse` to a number of the format. -/
def parse (text : List Char) : Option F64 :=
  let (negative, rest) := splitSign text
  let word := rest.map Char.toLower
  if word = ['n', 'a', 'n'] then some nan
  else if word = ['i', 'n', 'f'] ∨ word = ['i', 'n', 'f', 'i', 'n', 'i', 't', 'y'] then
    some (inf negative)
  else (parseDecimal rest).map fun q : NNRat => ofRat (if negative then -(q : ℚ) else q)

/-- The opposite number. -/
def neg : F64 → F64
  | nan => nan
  | inf negative => inf !negative
  | finite value => finite (-value)

/-- The sum of two numbers. -/
def add : F64 → F64 → F64
  | nan, _ | _, nan => nan
  | inf a, inf b => if a = b then inf a else nan
  | inf a, finite _ | finite _, inf a => inf a
  | finite x, finite y => ofRat (x + y)

/-- The difference of two numbers. -/
def sub (x y : F64) : F64 := x.add y.neg

/-- The rational a finite number is. -/
def toRat : F64 → ℚ
  | finite value => value
  | _ => 0

/-- A rational far from the overflow is rounded within the format. -/
theorem ofRat_of_abs_lt {q : ℚ} (h : |q| < 2 ^ 200) : ofRat q = finite (Binary64.round q) := by
  have hround := Binary64.abs_round_sub_le q
  have hsplit : |Binary64.round q| ≤ |Binary64.round q - q| + |q| := by
    simpa using abs_add_le (Binary64.round q - q) q
  have hpart : |q| / 2 ^ 53 ≤ |q| := div_le_self (abs_nonneg q) (by norm_num)
  have htiny : (2 : ℚ) ^ (-1075 : ℤ) ≤ 1 := zpow_le_one_of_nonpos₀ (by norm_num) (by norm_num)
  have hlarge : (2 : ℚ) ^ (202 : ℤ) ≤ 2 ^ (1024 : ℤ) :=
    zpow_le_zpow_right₀ (by norm_num) (by norm_num)
  have hsum : (2 : ℚ) ^ 200 + 1 + 2 ^ 200 ≤ 2 ^ (202 : ℤ) := by norm_num
  have hfits : |Binary64.round q| < 2 ^ (1024 : ℤ) := by
    calc |Binary64.round q| ≤ |Binary64.round q - q| + |q| := hsplit
      _ ≤ |q| + 1 + |q| := add_le_add_left (hround.trans (add_le_add hpart htiny)) _
      _ < 2 ^ 200 + 1 + 2 ^ 200 := by linarith only [h]
      _ ≤ 2 ^ (1024 : ℤ) := hsum.trans hlarge
  unfold ofRat
  rw [if_pos hfits]

/-- An integer below `2 ^ 53` is itself. -/
theorem ofRat_intCast {n : ℤ} (h : |n| < 2 ^ 53) : ofRat n = finite n := by
  have hsmall : |(n : ℚ)| < 2 ^ 200 := by
    have hcast : ((|n| : ℤ) : ℚ) < 2 ^ 53 := by exact_mod_cast h
    rw [← Int.cast_abs]
    exact hcast.trans (by norm_num)
  rw [ofRat_of_abs_lt hsmall, Binary64.round_intCast h]

end F64
