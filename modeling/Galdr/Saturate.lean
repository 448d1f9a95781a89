import Mathlib

/-!
# Saturating and wrapping 32-bit arithmetic

A 32-bit signed integer has two arithmetics. The *wrapping* one is what the
machine's subtraction computes, and it is exact only while the true result
fits; the *saturating* one is a clamp of the true result. This module relates
both to the integers: where the wrapping result is the true one
(`toInt_sub_of_fits`, `sub_exact_iff`), and what a saturating addition and a
saturating conversion leave (`toInt_satI32`, `toInt_satAdd`).
-/

namespace Galdr

/-- The least 32-bit signed integer. -/
def i32Min : ℤ := -2147483648

/-- The greatest 32-bit signed integer. -/
def i32Max : ℤ := 2147483647

/-- The integer `z` is a value of the 32-bit signed type. -/
def FitsI32 (z : ℤ) : Prop := i32Min ≤ z ∧ z ≤ i32Max

instance (z : ℤ) : Decidable (FitsI32 z) :=
  inferInstanceAs (Decidable (_ ∧ _))

/-- The clamp of an integer into the 32-bit signed range. -/
def clampI32 (z : ℤ) : ℤ := max i32Min (min z i32Max)

theorem clampI32_of_fits {z : ℤ} (h : FitsI32 z) : clampI32 z = z := by
  unfold FitsI32 at h
  unfold clampI32
  omega

theorem fits_clampI32 (z : ℤ) : FitsI32 (clampI32 z) := by
  unfold FitsI32 clampI32 i32Min i32Max
  omega

theorem clampI32_mono {y z : ℤ} (h : y ≤ z) : clampI32 y ≤ clampI32 z := by
  unfold clampI32
  omega

theorem fits_toInt (x : Int32) : FitsI32 x.toInt := by
  have hlo := x.le_toInt
  have hhi := x.toInt_lt
  unfold FitsI32 i32Min i32Max
  omega

/-! ## Saturation -/

/-- The saturating conversion of an integer to a 32-bit signed value. -/
def satI32 (z : ℤ) : Int32 := Int32.ofInt (clampI32 z)

@[simp] theorem toInt_satI32 (z : ℤ) : (satI32 z).toInt = clampI32 z := by
  obtain ⟨hlo, hhi⟩ := fits_clampI32 z
  unfold i32Min at hlo
  unfold i32Max at hhi
  exact Int32.toInt_ofInt_of_le (by omega) (by omega)

theorem satI32_toInt (x : Int32) : satI32 x.toInt = x := by
  apply Int32.toInt_inj.1
  rw [toInt_satI32, clampI32_of_fits (fits_toInt x)]

/-- Saturating addition of an integer to a 32-bit signed value. -/
def satAdd (x : Int32) (d : ℤ) : Int32 := satI32 (x.toInt + d)

@[simp] theorem toInt_satAdd (x : Int32) (d : ℤ) :
    (satAdd x d).toInt = clampI32 (x.toInt + d) := by
  unfold satAdd
  exact toInt_satI32 _

/-- **Steps of one sign saturate once.** Adding one unit `n` times, each time
saturating, is one clamp of the whole sum: the partial sums move one way, so
once they meet the bound they stay on it. -/
theorem iterate_satAdd {u : ℤ} (hu : u = 1 ∨ u = -1) (x : Int32) (n : ℕ) :
    (((fun y => satAdd y u)^[n]) x).toInt = clampI32 (x.toInt + u * n) := by
  induction n with
  | zero => simpa using (clampI32_of_fits (fits_toInt x)).symm
  | succ n ih =>
    rw [Function.iterate_succ_apply', toInt_satAdd, ih]
    have hx := fits_toInt x
    unfold FitsI32 i32Min i32Max at hx
    unfold clampI32 i32Min i32Max
    push_cast
    rcases hu with rfl | rfl <;> omega

/-! ## Wrapping subtraction -/

/-- The true difference of two 32-bit signed values is again one. -/
def SubFits (x y : Int32) : Prop := FitsI32 (x.toInt - y.toInt)

instance (x y : Int32) : Decidable (SubFits x y) :=
  inferInstanceAs (Decidable (FitsI32 _))

/-- The wrapping difference is the true one exactly where that fits. -/
theorem sub_exact_iff (x y : Int32) :
    (x - y).toInt = x.toInt - y.toInt ↔ SubFits x y := by
  constructor
  · intro h
    unfold SubFits
    rw [← h]
    exact fits_toInt _
  · intro h
    unfold SubFits FitsI32 i32Min i32Max at h
    rw [Int32.toInt_sub]
    exact Int.bmod_eq_of_le (by omega) (by omega)

theorem toInt_sub_of_fits {x y : Int32} (h : SubFits x y) :
    (x - y).toInt = x.toInt - y.toInt :=
  (sub_exact_iff x y).2 h

end Galdr
