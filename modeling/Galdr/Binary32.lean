import Mathlib

/-!
# Single precision numbers

The `binary32` format, with its exceptional values. The magnitude of a finite
number is the rational it stands for, so that what a computation rounds to is
stated and proved over the rationals: rounding takes a rational to the nearest
magnitude of the format, and of two nearest ones to the even one.

Rounding to an integer has the same rule, and is what the magnitudes of a binade
and the decimals of a printed number have in common.
-/

namespace Binary32

/-! ## Rounding to an integer -/

/-- The integer nearest to a rational, the even one of two. -/
def halfEven (x : ℚ) : ℤ :=
  if x - ⌊x⌋ < 1 / 2 then ⌊x⌋
  else if 1 / 2 < x - ⌊x⌋ then ⌊x⌋ + 1
  else if Even ⌊x⌋ then ⌊x⌋ else ⌊x⌋ + 1

/-- A rounded number is within a half of the number, and at a half it is even. -/
theorem halfEven_spec (x : ℚ) :
    |x - halfEven x| < 1 / 2 ∨ |x - halfEven x| = 1 / 2 ∧ Even (halfEven x) := by
  have hle := Int.floor_le x
  have hlt := Int.lt_floor_add_one x
  unfold halfEven
  split_ifs with hlow hhigh heven
  · left
    rw [abs_of_nonneg (by linarith)]
    exact hlow
  · left
    push_cast
    rw [abs_of_nonpos (by linarith)]
    linarith
  · right
    exact ⟨by rw [abs_of_nonneg (by linarith)]; linarith, heven⟩
  · right
    refine ⟨?_, (Int.not_even_iff_odd.1 heven).add_one⟩
    push_cast
    rw [abs_of_nonpos (by linarith)]
    linarith

theorem abs_sub_halfEven_le (x : ℚ) : |x - halfEven x| ≤ 1 / 2 := by
  rcases halfEven_spec x with h | h
  · exact h.le
  · exact h.1.le

/-- Two integers within a half of one number are one apart at most, and both are a
half away when they differ. -/
theorem eq_of_abs_sub_le {x : ℚ} {m n : ℤ} (hm : |x - m| ≤ 1 / 2) (hn : |x - n| ≤ 1 / 2)
    (hne : m ≠ n) : |x - m| = 1 / 2 ∧ |x - n| = 1 / 2 ∧ (m = n + 1 ∨ n = m + 1) := by
  rw [abs_le] at hm hn
  rcases lt_or_gt_of_ne hne with hlt | hlt
  · have hstep : m + 1 ≤ n := hlt
    have hcast : (m : ℚ) + 1 ≤ n := by exact_mod_cast hstep
    have hnm : n = m + 1 := by
      have : (n : ℚ) ≤ m + 1 := by linarith
      exact le_antisymm (by exact_mod_cast this) hstep
    subst hnm
    push_cast at *
    refine ⟨?_, ?_, .inr rfl⟩
    · rw [abs_of_nonneg (by linarith)]
      linarith
    · rw [abs_of_nonpos (by linarith)]
      linarith
  · have hstep : n + 1 ≤ m := hlt
    have hcast : (n : ℚ) + 1 ≤ m := by exact_mod_cast hstep
    have hmn : m = n + 1 := by
      have : (m : ℚ) ≤ n + 1 := by linarith
      exact le_antisymm (by exact_mod_cast this) hstep
    subst hmn
    push_cast at *
    refine ⟨?_, ?_, .inl rfl⟩
    · rw [abs_of_nonpos (by linarith)]
      linarith
    · rw [abs_of_nonneg (by linarith)]
      linarith

/-- **What rounding to an integer is**: an integer within a half, even at a half. -/
theorem halfEven_eq {x : ℚ} {n : ℤ}
    (h : |x - n| < 1 / 2 ∨ |x - n| = 1 / 2 ∧ Even n) : halfEven x = n := by
  by_contra hne
  have hle : |x - n| ≤ 1 / 2 := h.elim le_of_lt fun h => h.1.le
  obtain ⟨hx, hn, hstep⟩ := eq_of_abs_sub_le (abs_sub_halfEven_le x) hle hne
  -- both are a half away, so both are even, and yet one apart
  have heven : Even n := h.elim (fun h => absurd hn h.ne) And.right
  have heven' : Even (halfEven x) :=
    (halfEven_spec x).elim (fun h => absurd hx h.ne) And.right
  rcases hstep with hstep | hstep
  · exact Int.not_even_iff_odd.2 (hstep ▸ heven.add_one) heven'
  · exact Int.not_even_iff_odd.2 (hstep ▸ heven'.add_one) heven

@[simp] theorem halfEven_intCast (n : ℤ) : halfEven n = n :=
  halfEven_eq (by simp)

/-- Nothing is nearer than the rounded number. -/
theorem abs_sub_halfEven_le_abs_sub (x : ℚ) (n : ℤ) : |x - halfEven x| ≤ |x - n| := by
  by_cases hn : |x - n| ≤ 1 / 2
  · by_cases hne : halfEven x = n
    · rw [hne]
    · obtain ⟨hx, hn, -⟩ := eq_of_abs_sub_le (abs_sub_halfEven_le x) hn hne
      rw [hx, hn]
  · exact (abs_sub_halfEven_le x).trans (not_le.1 hn).le

/-- A number that is no farther from the rounded number rounds to it too. -/
theorem halfEven_eq_of_abs_sub_le {x y : ℚ} (h : |y - halfEven x| ≤ |x - halfEven x|) :
    halfEven y = halfEven x := by
  refine halfEven_eq ?_
  rcases halfEven_spec x with hx | ⟨hx, heven⟩
  · exact .inl (h.trans_lt hx)
  · rcases (h.trans hx.le).lt_or_eq with hy | hy
    · exact .inl hy
    · exact .inr ⟨hy, heven⟩

/-- Rounding to an integer does not pass an integer. -/
theorem halfEven_le {x : ℚ} {n : ℤ} (h : x ≤ n) : halfEven x ≤ n := by
  by_contra hlt
  have hstep : n + 1 ≤ halfEven x := not_le.1 hlt
  have hcast : (n : ℚ) + 1 ≤ halfEven x := by exact_mod_cast hstep
  have hhalf := (abs_le.1 (abs_sub_halfEven_le x)).1
  linarith

theorem le_halfEven {x : ℚ} {n : ℤ} (h : n ≤ x) : n ≤ halfEven x := by
  by_contra hlt
  have hstep : halfEven x + 1 ≤ n := not_le.1 hlt
  have hcast : (halfEven x : ℚ) + 1 ≤ n := by exact_mod_cast hstep
  have hhalf := (abs_le.1 (abs_sub_halfEven_le x)).2
  linarith

theorem halfEven_nonneg {x : ℚ} (h : 0 ≤ x) : 0 ≤ halfEven x :=
  le_halfEven (by exact_mod_cast h)

/-! ## Magnitudes of the format -/

/-- The magnitudes: a significand of 24 bits times a power of two. -/
def Representable (q : ℚ) : Prop :=
  ∃ m : ℕ, m < 2 ^ 24 ∧ ∃ e : ℤ, -149 ≤ e ∧ e ≤ 104 ∧ q = m * 2 ^ e

theorem representable_zero : Representable 0 :=
  ⟨0, by norm_num, -149, le_rfl, by norm_num, by norm_num⟩

theorem Representable.nonneg {q : ℚ} (h : Representable q) : 0 ≤ q := by
  obtain ⟨m, -, e, -, -, rfl⟩ := h
  positivity

/-- A power of two of the range is a magnitude. -/
theorem representable_zpow {e : ℤ} (hlow : -149 ≤ e) (hhigh : e ≤ 127) :
    Representable (2 ^ e) := by
  rcases le_total e 104 with he | he
  · exact ⟨1, by norm_num, e, hlow, he, by norm_num⟩
  · refine ⟨2 ^ (e - 104).toNat, ?_, 104, by norm_num, le_rfl, ?_⟩
    · exact Nat.pow_lt_pow_right (by norm_num) (by omega)
    · rw [Nat.cast_pow, Nat.cast_ofNat, ← zpow_natCast, Int.toNat_of_nonneg (by omega),
        ← zpow_add₀ (by norm_num)]
      congr 1
      ring

/-- A natural number of 24 bits is a magnitude. -/
theorem representable_natCast {n : ℕ} (h : n < 2 ^ 24) : Representable n :=
  ⟨n, h, 0, by norm_num, by norm_num, by rw [zpow_zero, mul_one]⟩

/-- The exponent of the last bit of the significand that a magnitude is rounded to. -/
def exponent (q : ℚ) : ℤ := max (-149) (Int.log 2 q - 23)

theorem two_zpow_pos (e : ℤ) : (0 : ℚ) < 2 ^ e := zpow_pos (by norm_num) e

theorem lt_two_zpow_exponent (q : ℚ) : q < 2 ^ (exponent q + 24) := by
  have hlog : q < 2 ^ (Int.log 2 q + 1) := Int.lt_zpow_succ_log_self (by norm_num) q
  refine hlog.trans_le (zpow_le_zpow_right₀ (by norm_num) ?_)
  have := le_max_right (-149) (Int.log 2 q - 23)
  unfold exponent
  omega

/-- Above the least exponent a magnitude fills its significand. -/
theorem two_zpow_exponent_le {q : ℚ} (hq : 0 < q) (h : -149 < exponent q) :
    2 ^ (exponent q + 23) ≤ q := by
  have hlog : (2 : ℚ) ^ Int.log 2 q ≤ q := by
    exact_mod_cast Int.zpow_log_le_self (b := 2) (by norm_num) hq
  have he : exponent q = Int.log 2 q - 23 :=
    (max_choice (-149) (Int.log 2 q - 23)).resolve_left fun hmax => by
      unfold exponent at h
      omega
  rw [he]
  simpa using hlog

/-- A magnitude rounded to its significand, half to even. -/
def round (q : ℚ) : ℚ := halfEven (q / 2 ^ exponent q) * 2 ^ exponent q

theorem round_nonneg {q : ℚ} (hq : 0 ≤ q) : 0 ≤ round q := by
  have hhalf : 0 ≤ halfEven (q / 2 ^ exponent q) :=
    halfEven_nonneg (div_nonneg hq (two_zpow_pos _).le)
  have hcast : (0 : ℚ) ≤ halfEven (q / 2 ^ exponent q) := by exact_mod_cast hhalf
  exact mul_nonneg hcast (two_zpow_pos _).le

/-- Rounding is exact up to the rounding of the significand. -/
theorem abs_sub_round (q : ℚ) :
    |q - round q| = |q / 2 ^ exponent q - halfEven (q / 2 ^ exponent q)| * 2 ^ exponent q := by
  have hpos := two_zpow_pos (exponent q)
  unfold round
  rw [← abs_of_pos hpos, ← abs_mul, abs_of_pos hpos, sub_mul, div_mul_cancel₀ _ hpos.ne']

/-- Nothing on the grid of the significand is nearer than the rounded magnitude. -/
theorem abs_sub_round_le_of_grid (q : ℚ) (n : ℤ) :
    |q - round q| ≤ |q - n * 2 ^ exponent q| := by
  have hpos := two_zpow_pos (exponent q)
  have hgrid : q - n * 2 ^ exponent q = (q / 2 ^ exponent q - n) * 2 ^ exponent q := by
    rw [sub_mul, div_mul_cancel₀ _ hpos.ne']
  rw [abs_sub_round, hgrid, abs_mul, abs_of_pos hpos]
  exact mul_le_mul_of_nonneg_right (abs_sub_halfEven_le_abs_sub _ n) hpos.le

@[simp] theorem round_zero : round 0 = 0 := by
  have hzero : halfEven 0 = 0 := by exact_mod_cast halfEven_intCast 0
  unfold round
  rw [zero_div, hzero, Int.cast_zero, zero_mul]

/-- **Rounding is to nearest**: no magnitude of the format is nearer. -/
theorem abs_sub_round_le {q y : ℚ} (hq : 0 ≤ q) (hy : Representable y) :
    |q - round q| ≤ |q - y| := by
  rcases hq.eq_or_lt with rfl | hq
  · simp
  obtain ⟨m, hm, e, hlow, -, rfl⟩ := hy
  rcases le_or_gt (exponent q) e with hle | hlt
  · -- on the grid of the significand
    have hy : (m : ℚ) * 2 ^ e = ((m * 2 ^ (e - exponent q).toNat : ℕ) : ℤ) * 2 ^ exponent q := by
      push_cast
      rw [mul_assoc, ← zpow_natCast, Int.toNat_of_nonneg (by omega),
        ← zpow_add₀ (by norm_num)]
      congr 2
      ring
    rw [hy]
    exact abs_sub_round_le_of_grid q _
  · -- finer than the grid, so below the significands that fill it
    have hfull := two_zpow_exponent_le hq (by omega)
    have hbelow : (m : ℚ) * 2 ^ e ≤ 2 ^ (exponent q + 23) := by
      calc (m : ℚ) * 2 ^ e ≤ 2 ^ (24 : ℤ) * 2 ^ e := by
            refine mul_le_mul_of_nonneg_right ?_ (two_zpow_pos e).le
            exact_mod_cast hm.le
        _ = 2 ^ (24 + e) := (zpow_add₀ (by norm_num) _ _).symm
        _ ≤ 2 ^ (exponent q + 23) := zpow_le_zpow_right₀ (by norm_num) (by omega)
    have hcorner : (2 : ℚ) ^ (exponent q + 23) = ((2 ^ 23 : ℕ) : ℤ) * 2 ^ exponent q := by
      rw [add_comm, zpow_add₀ (by norm_num)]
      norm_num
    calc |q - round q| ≤ |q - 2 ^ (exponent q + 23)| := by
          rw [hcorner]
          exact abs_sub_round_le_of_grid q _
      _ = q - 2 ^ (exponent q + 23) := abs_of_nonneg (by linarith)
      _ ≤ q - m * 2 ^ e := by linarith
      _ = |q - m * 2 ^ e| := (abs_of_nonneg (by linarith)).symm

/-- A magnitude of the format is not rounded. -/
theorem round_eq {q : ℚ} (h : Representable q) : round q = q := by
  have hle := abs_sub_round_le h.nonneg h
  rw [sub_self, abs_zero] at hle
  have := abs_eq_zero.1 (le_antisymm hle (abs_nonneg _))
  linarith

/-- **A rounded magnitude is of the format**, short of the overflow. -/
theorem representable_round {q : ℚ} (hq : 0 ≤ q) (h : round q < 2 ^ (128 : ℤ)) :
    Representable (round q) := by
  rcases hq.eq_or_lt with rfl | hpos
  · rw [round_eq representable_zero]
    exact representable_zero
  have hexp := two_zpow_pos (exponent q)
  have hlow : -149 ≤ exponent q := le_max_left _ _
  -- the significand before the rounding, and after it
  have hsig : q / 2 ^ exponent q < ((2 ^ 24 : ℤ) : ℚ) := by
    rw [div_lt_iff₀ hexp]
    calc q < 2 ^ (exponent q + 24) := lt_two_zpow_exponent q
      _ = ((2 ^ 24 : ℤ) : ℚ) * 2 ^ exponent q := by
        rw [add_comm, zpow_add₀ (by norm_num)]
        norm_num
  have hround : halfEven (q / 2 ^ exponent q) ≤ 2 ^ 24 := halfEven_le hsig.le
  have hnonneg : 0 ≤ halfEven (q / 2 ^ exponent q) := halfEven_nonneg (div_nonneg hq hexp.le)
  have hhigh : exponent q ≤ 104 := by
    by_contra hlt
    have hfull := two_zpow_exponent_le hpos (by omega)
    have hle : (2 : ℚ) ^ (exponent q + 23) ≤ round q := by
      have hcorner : (2 : ℚ) ^ (exponent q + 23) = ((2 ^ 23 : ℤ) : ℚ) * 2 ^ exponent q := by
        rw [add_comm, zpow_add₀ (by norm_num)]
        norm_num
      rw [hcorner]
      refine mul_le_mul_of_nonneg_right ?_ hexp.le
      have : (2 : ℤ) ^ 23 ≤ halfEven (q / 2 ^ exponent q) := by
        refine le_halfEven ?_
        rw [le_div_iff₀ hexp, ← hcorner]
        exact hfull
      exact_mod_cast this
    have hover : (2 : ℚ) ^ (128 : ℤ) ≤ 2 ^ (exponent q + 23) :=
      zpow_le_zpow_right₀ (by norm_num) (by omega)
    linarith
  have hcast : (halfEven (q / 2 ^ exponent q) : ℚ)
      = ((halfEven (q / 2 ^ exponent q)).toNat : ℚ) := by
    exact_mod_cast (Int.toNat_of_nonneg hnonneg).symm
  rcases hround.lt_or_eq with hlt | heq
  · exact ⟨(halfEven (q / 2 ^ exponent q)).toNat, by omega, exponent q, hlow, hhigh,
      by unfold round; rw [hcast]⟩
  · -- the rounding fills the significand up to the next power of two
    have hval : round q = 2 ^ (exponent q + 24) := by
      unfold round
      rw [heq, add_comm, zpow_add₀ (by norm_num)]
      norm_num
    rw [hval] at h ⊢
    refine representable_zpow (by omega) ?_
    have := (zpow_lt_zpow_iff_right₀ (by norm_num : (1 : ℚ) < 2)).1 h
    omega

/-- What is not below a positive magnitude of the format is not rounded to zero. -/
theorem round_pos {q y : ℚ} (hy : Representable y) (hpos : 0 < y) (hle : y ≤ q) :
    0 < round q := by
  have hq : 0 < q := hpos.trans_le hle
  refine (round_nonneg hq.le).lt_of_ne' fun hzero => ?_
  have hnear := abs_sub_round_le hq.le hy
  rw [hzero, sub_zero, abs_of_pos hq, abs_of_nonneg (by linarith)] at hnear
  linarith

/-! ## Numbers of the format -/

/-- A magnitude of the format. -/
structure Magnitude where
  /-- The rational it is. -/
  value : ℚ
  /-- The format has it. -/
  representable : Representable value

namespace Magnitude

theorem ext_value {m n : Magnitude} (h : m.value = n.value) : m = n := by
  cases m
  cases n
  cases h
  rfl

instance : DecidableEq Magnitude := fun m n =>
  decidable_of_iff (m.value = n.value) ⟨ext_value, congrArg value⟩

/-- The magnitude zero. -/
def zero : Magnitude := ⟨0, representable_zero⟩

end Magnitude

end Binary32

/-- A number of the format. -/
inductive F32
  /-- Not a number. -/
  | nan
  /-- An infinity, by its sign. -/
  | inf (negative : Bool)
  /-- A finite number, by its sign and magnitude. -/
  | finite (negative : Bool) (magnitude : Binary32.Magnitude)
  deriving DecidableEq

namespace F32

open Binary32

/-- Positive zero. -/
def zero : F32 := finite false Magnitude.zero

/-- The number a signed magnitude is rounded to. -/
def ofRat (negative : Bool) (q : NNRat) : F32 :=
  if h : Binary32.round q < 2 ^ (128 : ℤ) then
    finite negative ⟨_, representable_round q.coe_nonneg h⟩
  else inf negative

/-- `f32::is_finite`. -/
def isFinite : F32 → Bool
  | finite _ _ => true
  | _ => false

/-- `0.0 <= x`. -/
def nonnegative : F32 → Bool
  | nan => false
  | inf negative => !negative
  | finite negative m => !negative || m.value = 0

/-- `0.0 < x`. -/
def positive : F32 → Bool
  | nan => false
  | inf negative => !negative
  | finite negative m => !negative && m.value ≠ 0

/-- `x.max(0.0)`. Of the two zeros the standard library returns either one, and this
is the one that is given. -/
def maxZero (x : F32) : F32 := if x.nonnegative then x else zero

/-- The rational a finite number is. -/
def toRat : F32 → ℚ
  | finite negative m => if negative then -m.value else m.value
  | _ => 0

/-- A magnitude of the format is read as itself. -/
theorem toRat_ofRat {q : NNRat} (h : Representable q) : (ofRat false q).toRat = q := by
  have hfits : Binary32.round q < 2 ^ (128 : ℤ) := by
    have hround := round_eq h
    obtain ⟨m, hm, e, -, he, hq⟩ := h
    rw [hround, hq]
    calc (m : ℚ) * 2 ^ e < 2 ^ (24 : ℤ) * 2 ^ e :=
          mul_lt_mul_of_pos_right (by exact_mod_cast hm) (two_zpow_pos e)
      _ ≤ 2 ^ (24 : ℤ) * 2 ^ (104 : ℤ) :=
          mul_le_mul_of_nonneg_left (zpow_le_zpow_right₀ (by norm_num) he) (by norm_num)
      _ = 2 ^ (128 : ℤ) := by norm_num
  unfold ofRat
  rw [dif_pos hfits]
  show Binary32.round q = q
  exact round_eq h

theorem positive_ofRat {q : NNRat} {y : ℚ} (hy : Representable y) (hpos : 0 < y)
    (hle : y ≤ q) : (ofRat false q).positive = true := by
  have hround := round_pos hy hpos hle
  unfold ofRat
  split
  · simp [positive, hround.ne']
  · rfl

@[simp] theorem nonnegative_maxZero (x : F32) : x.maxZero.nonnegative = true := by
  unfold maxZero
  split
  · assumption
  · rfl

end F32
