import Galdr.Libm

/-!
# The arithmetic of the planner over the reals

The real numbers with the true square root and trigonometric functions: the
arithmetic the program approximates, and a lawful one.
-/

namespace Galdr

noncomputable instance : Libm ℝ where
  sqrtf := Real.sqrt
  sinf := Real.sin
  cosf := Real.cos
  acosf := Real.arccos
  atan2f y x := Complex.arg ⟨x, y⟩
  pi := Real.pi

instance : LawfulLibm ℝ where
  sqrtf_nonneg := Real.sqrt_nonneg
  sqrtf_mul_self _ h := Real.mul_self_sqrt h

end Galdr
