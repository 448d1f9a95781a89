import Mathlib

/-!
# The Bresenham accumulator

Spread `rise` marks over `run` ticks as evenly as integers allow: an error
accumulator grows by `rise` at every tick, and when it reaches `run` the tick is
marked and `run` is taken off. The accumulator stays in `[0, run)`
(`errorAfter_lt`), so that after `n` ticks the number of marks is within one of
`n * rise / run` (`abs_marks_sub_lt`), and after `run` ticks it is `rise`
(`marks_run`).
-/

namespace Bresenham

variable {K : Type} [CommRing K] [LinearOrder K]

/-- The accumulator after a tick, and whether the tick is marked. -/
def tick (rise run error : K) : K × Bool :=
  if run ≤ error + rise then (error + rise - run, true) else (error + rise, false)

/-- The accumulator after a number of ticks. -/
def errorAfter (rise run : K) : ℕ → K
  | 0 => 0
  | n + 1 => (tick rise run (errorAfter rise run n)).1

/-- The tick with a number is marked. -/
def mark (rise run : K) (n : ℕ) : Bool := (tick rise run (errorAfter rise run n)).2

/-- The number of marks among the first ticks. -/
def marks (rise run : K) (n : ℕ) : ℕ := (List.range n).countP (mark rise run)

theorem marks_succ (rise run : K) (n : ℕ) :
    marks rise run (n + 1) = marks rise run n + (mark rise run n).toNat := by
  unfold marks
  rw [List.range_succ, List.countP_append, List.countP_singleton]
  cases mark rise run n <;> rfl

/-- When the rise is the run, nothing is left over and every tick is marked. -/
theorem errorAfter_self (run : K) (n : ℕ) : errorAfter run run n = 0 := by
  induction n with
  | zero => rfl
  | succ n ih =>
    show (tick run run (errorAfter run run n)).1 = 0
    rw [ih]
    unfold tick
    rw [zero_add, if_pos le_rfl]
    exact sub_self run

theorem mark_self (run : K) (n : ℕ) : mark run run n = true := by
  unfold mark tick
  rw [errorAfter_self, zero_add, if_pos le_rfl]

section Ordered

variable [IsStrictOrderedRing K] {rise run : K}

/-- A tick keeps the accumulator below the run. -/
theorem tick_lt (hrise : 0 ≤ rise) (hle : rise ≤ run) {error : K} (h0 : 0 ≤ error)
    (h1 : error < run) : 0 ≤ (tick rise run error).1 ∧ (tick rise run error).1 < run := by
  unfold tick
  split
  · rename_i hmark
    show 0 ≤ error + rise - run ∧ error + rise - run < run
    exact ⟨sub_nonneg.2 hmark, by linarith⟩
  · rename_i hmark
    exact ⟨add_nonneg h0 hrise, not_le.1 hmark⟩

/-- **The accumulator stays below the run.** -/
theorem errorAfter_lt (hrise : 0 ≤ rise) (hle : rise ≤ run) (hrun : 0 < run) (n : ℕ) :
    0 ≤ errorAfter rise run n ∧ errorAfter rise run n < run := by
  induction n with
  | zero => exact ⟨le_rfl, hrun⟩
  | succ n ih => exact tick_lt hrise hle ih.1 ih.2

omit [IsStrictOrderedRing K] in
/-- **What has been added is what has been taken off and what is left.** -/
theorem errorAfter_add (rise run : K) (n : ℕ) :
    errorAfter rise run n + run * marks rise run n = n * rise := by
  induction n with
  | zero =>
    show 0 + run * ((0 : ℕ) : K) = ((0 : ℕ) : K) * rise
    rw [Nat.cast_zero, mul_zero, zero_mul, add_zero]
  | succ n ih =>
    have hstep : errorAfter rise run (n + 1) + run * ((mark rise run n).toNat : K)
        = errorAfter rise run n + rise := by
      show (tick rise run (errorAfter rise run n)).1
        + run * ((tick rise run (errorAfter rise run n)).2.toNat : K) = _
      unfold tick
      split
      · show _ - run + run * ((1 : ℕ) : K) = _
        rw [Nat.cast_one, mul_one, sub_add_cancel]
      · show _ + run * ((0 : ℕ) : K) = _
        rw [Nat.cast_zero, mul_zero, add_zero]
    calc errorAfter rise run (n + 1) + run * marks rise run (n + 1)
        = errorAfter rise run (n + 1) + run * ((mark rise run n).toNat : K)
            + run * marks rise run n := by
          rw [marks_succ, Nat.cast_add]
          ring
      _ = errorAfter rise run n + run * marks rise run n + rise := by
          rw [hstep]
          ring
      _ = ((n + 1 : ℕ) : K) * rise := by
          rw [ih]
          push_cast
          ring

/-- **The marks are within one of their share.** -/
theorem abs_marks_sub_lt (hrise : 0 ≤ rise) (hle : rise ≤ run) (hrun : 0 < run) (n : ℕ) :
    |(marks rise run n : K) * run - n * rise| < run := by
  obtain ⟨h0, h1⟩ := errorAfter_lt hrise hle hrun n
  have hadd := errorAfter_add rise run n
  rw [abs_sub_lt_iff]
  constructor <;> nlinarith

/-- **After as many ticks as the run, there are as many marks as the rise.** -/
theorem marks_run {k n : ℕ} (hle : k ≤ n) (hn : 0 < n) :
    marks (k : K) (n : K) n = k := by
  have hn' : (0 : K) < n := Nat.cast_pos.2 hn
  obtain ⟨h0, h1⟩ := errorAfter_lt (Nat.cast_nonneg (α := K) k) (Nat.cast_le.2 hle) hn' n
  have hadd := errorAfter_add (k : K) (n : K) n
  set c := marks (k : K) (n : K) n with hc
  have herror : errorAfter (k : K) (n : K) n = n * ((k : K) - c) := by
    linear_combination hadd
  rw [herror] at h0 h1
  have hlow : (c : K) ≤ k := sub_nonneg.1 (nonneg_of_mul_nonneg_right h0 hn')
  have hhigh : (k : K) < c + 1 := by
    have hlt : (k : K) - c < 1 := by
      by_contra hge
      have hmul : (n : K) * 1 ≤ n * ((k : K) - c) :=
        mul_le_mul_of_nonneg_left (not_lt.1 hge) hn'.le
      rw [mul_one] at hmul
      exact absurd h1 (not_lt.2 hmul)
    linarith
  have hlow' : c ≤ k := by exact_mod_cast hlow
  have hhigh' : k < c + 1 := by exact_mod_cast hhigh
  omega

end Ordered

end Bresenham
