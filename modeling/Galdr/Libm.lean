import Mathlib
import Galdr.Saturate

/-!
# The arithmetic of the planner

The program computes in `f32`. The development reads those computations in
exact arithmetic: an `f32` is an element of an ordered field `K`, and the
functions the program takes from the `libm` crate are a parameter, the class
`Libm`. What the proofs rely on is that the square root is one
(`LawfulLibm`).

The field of rationals carries an instance whose square root is exact on
squares, so that a plan can be evaluated on concrete input.
-/

namespace Galdr

/-- The functions and the constant the program takes from `libm` and
`core::f32::consts`. -/
class Libm (K : Type) where
  /-- `libm::sqrtf`. -/
  sqrtf : K → K
  /-- `libm::sinf`. -/
  sinf : K → K
  /-- `libm::cosf`. -/
  cosf : K → K
  /-- `libm::acosf`. -/
  acosf : K → K
  /-- `libm::atan2f`, of `y` and `x`. -/
  atan2f : K → K → K
  /-- `core::f32::consts::PI`. -/
  pi : K

export Libm (sqrtf sinf cosf acosf atan2f)

variable {K : Type} [Field K] [LinearOrder K]

/-- The square root is the square root. -/
class LawfulLibm (K : Type) [Field K] [LinearOrder K] [Libm K] : Prop where
  /-- A square root is not negative. -/
  sqrtf_nonneg : ∀ x : K, 0 ≤ sqrtf x
  /-- The square of a square root is the number itself. -/
  sqrtf_mul_self : ∀ x : K, 0 ≤ x → sqrtf x * sqrtf x = x

export LawfulLibm (sqrtf_nonneg sqrtf_mul_self)

section Sqrtf

variable [IsStrictOrderedRing K] [Libm K] [LawfulLibm K]

omit [IsStrictOrderedRing K] in
theorem sqrtf_pos {x : K} (hx : 0 < x) : 0 < sqrtf x := by
  rcases (sqrtf_nonneg x).lt_or_eq with h | h
  · exact h
  · have hxx := sqrtf_mul_self x hx.le
    rw [← h, mul_zero] at hxx
    exact absurd hxx hx.ne

theorem sqrtf_mul_self_eq {x : K} (hx : 0 ≤ x) : sqrtf (x * x) = x := by
  have hroot := sqrtf_mul_self (x * x) (mul_nonneg hx hx)
  exact (mul_self_inj (sqrtf_nonneg _) hx).1 hroot

theorem sqrtf_le_iff {x y : K} (hx : 0 ≤ x) (hy : 0 ≤ y) :
    sqrtf x ≤ y ↔ x ≤ y * y := by
  constructor
  · intro h
    calc x = sqrtf x * sqrtf x := (sqrtf_mul_self x hx).symm
      _ ≤ y * y := mul_self_le_mul_self (sqrtf_nonneg x) h
  · intro h
    rw [← sqrtf_mul_self x hx] at h
    exact (mul_self_le_mul_self_iff (sqrtf_nonneg x) hy).2 h

theorem sqrtf_le_sqrtf {x y : K} (hx : 0 ≤ x) (h : x ≤ y) : sqrtf x ≤ sqrtf y := by
  rw [sqrtf_le_iff hx (sqrtf_nonneg y), sqrtf_mul_self y (hx.trans h)]
  exact h

end Sqrtf

/-! Named once, so that a numeral is the same term in every module. -/

instance atLeastTwo_two : Nat.AtLeastTwo 2 := ⟨le_rfl⟩

instance atLeastTwo_three : Nat.AtLeastTwo 3 := ⟨by decide⟩

instance atLeastTwo_four : Nat.AtLeastTwo 4 := ⟨by decide⟩

instance atLeastTwo_five : Nat.AtLeastTwo 5 := ⟨by decide⟩

instance atLeastTwo_ten : Nat.AtLeastTwo 10 := ⟨by decide⟩

instance atLeastTwo_sixty : Nat.AtLeastTwo 60 := ⟨by decide⟩

instance atLeastTwo_hundred : Nat.AtLeastTwo 100 := ⟨by decide⟩

instance atLeastTwo_254 : Nat.AtLeastTwo 254 := ⟨by decide⟩

instance atLeastTwo_sixHundred : Nat.AtLeastTwo 600 := ⟨by decide⟩

instance atLeastTwo_thousand : Nat.AtLeastTwo 1000 := ⟨by decide⟩

instance atLeastTwo_sixThousand : Nat.AtLeastTwo 6000 := ⟨by decide⟩

instance atLeastTwo_million : Nat.AtLeastTwo 1000000 := ⟨by decide⟩

/-- `f32::EPSILON`. -/
def f32Epsilon : K := 1 / 8388608

variable [FloorRing K]

/-- `libm::roundf`: the nearest integer, halves away from zero. -/
def roundf (x : K) : ℤ :=
  if 0 ≤ x then ⌊x + 1 / 2⌋ else ⌈x - 1 / 2⌉

/-- `libm::roundf(x) as i32`: the cast saturates. -/
def roundToI32 (x : K) : Int32 := satI32 (roundf x)

@[simp] theorem toInt_roundToI32 (x : K) :
    (roundToI32 x).toInt = clampI32 (roundf x) :=
  toInt_satI32 _

@[simp] theorem roundf_intCast [IsStrictOrderedRing K] (z : ℤ) :
    roundf (z : K) = z := by
  unfold roundf
  split
  · rw [Int.floor_intCast_add, Int.floor_eq_zero_iff.2 ⟨by norm_num, by norm_num⟩,
      add_zero]
  · have hhalf : ⌈(z : K) - 1 / 2⌉ = z := by
      rw [Int.ceil_eq_iff]
      constructor
      · linarith
      · linarith
    exact hhalf

/-- Rounding keeps the order. -/
theorem roundf_mono [IsStrictOrderedRing K] {x y : K} (h : x ≤ y) :
    roundf x ≤ roundf y := by
  unfold roundf
  split
  · rename_i hx
    rw [if_pos (hx.trans h)]
    exact Int.floor_le_floor (by linarith)
  · rename_i hx
    split
    · rename_i hy
      have hneg : ⌈x - 1 / 2⌉ ≤ 0 := Int.ceil_le.2 (by push_cast; linarith)
      have hpos : 0 ≤ ⌊y + 1 / 2⌋ := Int.floor_nonneg.2 (by linarith)
      exact hneg.trans hpos
    · exact Int.ceil_le_ceil (by linarith)

/-- Rounding is odd. -/
theorem roundf_neg [IsStrictOrderedRing K] (x : K) : roundf (-x) = -roundf x := by
  unfold roundf
  rcases lt_trichotomy x 0 with h | rfl | h
  · rw [if_pos (neg_nonneg.2 h.le), if_neg h.not_ge, ← Int.floor_neg]
    congr 1
    ring
  · have hhalf : ⌊(1 / 2 : K)⌋ = 0 :=
      Int.floor_eq_zero_iff.2 ⟨by norm_num, by norm_num⟩
    rw [neg_zero, if_pos le_rfl, zero_add, hhalf, neg_zero]
  · rw [if_neg (neg_lt_zero.2 h).not_ge, if_pos h.le, ← Int.ceil_neg]
    congr 1
    ring

/-- A number that is not negative rounds to at most an integer when it is less than a
half above it. -/
theorem roundf_le_iff {x : K} (hx : 0 ≤ x) (n : ℤ) : roundf x ≤ n ↔ x + 1 / 2 < n + 1 := by
  unfold roundf
  rw [if_pos hx, Int.floor_le_iff]

theorem roundf_nonneg [IsStrictOrderedRing K] {x : K} (hx : 0 ≤ x) : 0 ≤ roundf x := by
  have hzero := roundf_mono hx
  rwa [show (0 : K) = ((0 : ℤ) : K) from Int.cast_zero.symm, roundf_intCast] at hzero

/-- Rounding moves a number that is not negative up by at most a half. -/
theorem roundf_le_add_half [IsStrictOrderedRing K] {x : K} (hx : 0 ≤ x) :
    (roundf x : K) ≤ x + 1 / 2 := by
  unfold roundf
  rw [if_pos hx]
  exact Int.floor_le _

/-- Rounding moves a number by at most a half. -/
theorem abs_roundf_sub_le [IsStrictOrderedRing K] (x : K) : |(roundf x : K) - x| ≤ 1 / 2 := by
  unfold roundf
  rw [abs_le]
  split
  · have hlow := Int.lt_floor_add_one (x + 1 / 2)
    have hhigh := Int.floor_le (x + 1 / 2)
    constructor <;> linarith
  · have hlow := Int.le_ceil (x - 1 / 2)
    have hhigh := Int.ceil_lt_add_one (x - 1 / 2)
    constructor <;> linarith

/-! ## The rational instance -/

/-- The integer square root, one binary digit at a time from `2 ^ n` down. -/
def natSqrtFrom (x : ℕ) : ℕ → ℕ → ℕ
  | 0, r => r
  | n + 1, r =>
    if (r + 2 ^ n) * (r + 2 ^ n) ≤ x then natSqrtFrom x n (r + 2 ^ n)
    else natSqrtFrom x n r

/-- The square root of a rational whose numerator and denominator are squares
below `2 ^ 128`; elsewhere a lower bound for the numerator over one for the
denominator. -/
def ratSqrt (q : ℚ) : ℚ :=
  (natSqrtFrom q.num.toNat 64 0 : ℚ) / (natSqrtFrom q.den 64 0 : ℚ)

/-- Rational arithmetic: the square root is exact on squares, and the
trigonometric functions are given where their values are rational, at angle
zero. -/
instance : Libm ℚ where
  sqrtf := ratSqrt
  sinf _ := 0
  cosf _ := 1
  acosf _ := 0
  atan2f _ _ := 0
  pi := 22 / 7

example : sqrtf (9 / 16 : ℚ) = 3 / 4 := by decide +kernel

end Galdr
