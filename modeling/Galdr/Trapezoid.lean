import Mathlib

/-!
# Speed envelopes

A move of a given length may not exceed a cruise speed, gains squared speed at
no more than a slope, and is to end at an exit speed. In squared speeds, the
fastest such profile from an entry speed is the least of three lines: the
cruise, the ramp up from the entry, and the ramp down to the exit (`envelope`).
It changes by no more than the slope over any part of the move, and cutting all
three speeds to a ceiling cuts the envelope to it.
-/

namespace Trapezoid

variable {K : Type} [CommRing K] [LinearOrder K] [IsStrictOrderedRing K]

/-- The fastest profile, in squared speeds, at a distance from the start. -/
def envelope (cruise entry exit slope length d : K) : K :=
  min cruise (min (entry + slope * d) (exit + slope * (length - d)))

variable {cruise entry exit slope length : K}

section Lines

variable {d : K}

omit [IsStrictOrderedRing K] in
/-- On the ramp up. -/
theorem envelope_eq_up (hcruise : entry + slope * d ≤ cruise)
    (hdown : entry + slope * d ≤ exit + slope * (length - d)) :
    envelope cruise entry exit slope length d = entry + slope * d := by
  unfold envelope
  rw [min_eq_left hdown, min_eq_right hcruise]

omit [IsStrictOrderedRing K] in
/-- On the plateau. -/
theorem envelope_eq_cruise (hup : cruise ≤ entry + slope * d)
    (hdown : cruise ≤ exit + slope * (length - d)) :
    envelope cruise entry exit slope length d = cruise :=
  min_eq_left (le_min hup hdown)

omit [IsStrictOrderedRing K] in
/-- On the ramp down. -/
theorem envelope_eq_down (hcruise : exit + slope * (length - d) ≤ cruise)
    (hup : exit + slope * (length - d) ≤ entry + slope * d) :
    envelope cruise entry exit slope length d = exit + slope * (length - d) := by
  unfold envelope
  rw [min_eq_right hup, min_eq_right hcruise]

end Lines

omit [IsStrictOrderedRing K] in
/-- An envelope ends at its exit, or at what can be gained before it. -/
theorem envelope_length (hexit : exit ≤ cruise) :
    envelope cruise entry exit slope length length
      = min exit (entry + slope * length) := by
  unfold envelope
  rw [sub_self, mul_zero, add_zero, min_comm _ exit, ← min_assoc, min_eq_right hexit]

/-- A line of a slope changes by the slope. -/
theorem abs_add_mul_sub_le (hslope : 0 ≤ slope) (a x y : K) :
    |(a + slope * x) - (a + slope * y)| ≤ slope * |x - y| := by
  rw [add_sub_add_left_eq_sub, ← mul_sub, abs_mul, abs_of_nonneg hslope]

/-- **The envelope changes by no more than the slope.** -/
theorem abs_envelope_sub_le (hslope : 0 ≤ slope) (x y : K) :
    |envelope cruise entry exit slope length x - envelope cruise entry exit slope length y|
      ≤ slope * |x - y| := by
  unfold envelope
  have hup := abs_add_mul_sub_le hslope entry x y
  have hdown := abs_add_mul_sub_le hslope exit (length - x) (length - y)
  rw [sub_sub_sub_cancel_left, abs_sub_comm y x] at hdown
  have hcruise : |cruise - cruise| ≤ slope * |x - y| := by
    rw [sub_self, abs_zero]
    exact mul_nonneg hslope (abs_nonneg _)
  exact (abs_min_sub_min_le_max _ _ _ _).trans (max_le hcruise
    ((abs_min_sub_min_le_max _ _ _ _).trans (max_le hup hdown)))

/-- **A ceiling on the speeds is a ceiling on the envelope.** -/
theorem min_envelope (hslope : 0 ≤ slope) {d : K} (h0 : 0 ≤ d) (hd : d ≤ length)
    (ceiling : K) :
    min ceiling (envelope cruise entry exit slope length d)
      = envelope (min ceiling cruise) (min ceiling entry) (min ceiling exit) slope length
          d := by
  have hup : 0 ≤ slope * d := mul_nonneg hslope h0
  have hdown : 0 ≤ slope * (length - d) := mul_nonneg hslope (sub_nonneg.2 hd)
  unfold envelope
  rw [← min_add_add_right, ← min_add_add_right]
  have h1 : ceiling ≤ ceiling + slope * d := le_add_of_nonneg_right hup
  have h2 : ceiling ≤ ceiling + slope * (length - d) := le_add_of_nonneg_right hdown
  apply le_antisymm
  · simp only [le_min_iff]
    exact ⟨⟨min_le_left _ _, (min_le_right _ _).trans (min_le_left _ _)⟩,
      ⟨(min_le_left _ _).trans h1,
        (min_le_right _ _).trans ((min_le_right _ _).trans (min_le_left _ _))⟩,
      (min_le_left _ _).trans h2,
      (min_le_right _ _).trans ((min_le_right _ _).trans (min_le_right _ _))⟩
  · simp only [le_min_iff]
    exact ⟨(min_le_left _ _).trans (min_le_left _ _),
      (min_le_left _ _).trans (min_le_right _ _),
      (min_le_right _ _).trans ((min_le_left _ _).trans (min_le_right _ _)),
      (min_le_right _ _).trans ((min_le_right _ _).trans (min_le_right _ _))⟩

end Trapezoid
