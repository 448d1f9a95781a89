import Galdr.FloatText

/-!
# How a setting is read and printed

Every setting has a policy: how its text is read, which of the values that can be
read it accepts, and how a value is printed. A policy carries what a dump relies on:
what it prints holds no white space, and a text that was printed prints again as it
was, whatever value it is read as.

The policies are those of the parsing functions of the settings module.
-/

namespace Galdr

open Text

/-- Why a `$n=value` write is rejected. -/
inductive SettingError
  | unknownSetting
  | badValue
  | outOfRange
  | softLimitsNeedHoming
  deriving DecidableEq, Repr

/-- The `error:N` code of a rejected write. -/
def SettingError.code : SettingError → ℕ
  | unknownSetting => 3
  | badValue | outOfRange => 2
  | softLimitsNeedHoming => 5

/-- How the values of a setting are read, checked and printed. -/
structure Policy (V : Type) where
  /-- How a value is read. -/
  read : List Char → Option V
  /-- The values that are accepted. -/
  accepts : V → Bool
  /-- How a value is printed. -/
  print : V → List Char
  /-- Nothing printed holds white space. -/
  solid_print : ∀ v, Solid (print v)
  /-- What is printed prints again. -/
  print_of_read_print : ∀ {v w}, read (print v) = some w → print w = print v

namespace Policy

variable {V : Type}

/-- The value of a text. -/
def parse (p : Policy V) (text : List Char) : Except SettingError V :=
  match p.read text with
  | none => .error .badValue
  | some v => if p.accepts v then .ok v else .error .outOfRange

theorem parse_eq_ok_iff {p : Policy V} {text : List Char} {v : V} :
    p.parse text = .ok v ↔ p.read text = some v ∧ p.accepts v = true := by
  unfold parse
  cases hread : p.read text with
  | none => simp
  | some w =>
    by_cases haccepts : p.accepts w = true
    · simp only [haccepts, if_true, Except.ok.injEq, Option.some.injEq]
      exact ⟨fun h => ⟨h, h ▸ haccepts⟩, And.left⟩
    · simp only [haccepts, Option.some.injEq]
      refine ⟨fun h => absurd h (by simp), fun h => ?_⟩
      exact absurd (h.1 ▸ h.2) haccepts

/-! ## The policies -/

/-- An unsigned number of the type with the greatest value `max`. -/
def unsigned (max : ℕ) (ofNat : ℕ → V) (toNat : V → ℕ) (accepts : V → Bool)
    (hmax : ∀ v, toNat v ≤ max) (hof : ∀ v, ofNat (toNat v) = v) : Policy V where
  read text := (parseUnsigned max text).map ofNat
  accepts := accepts
  print v := Nat.toDigits 10 (toNat v)
  solid_print _ := solid_of_isDigit fun _ => isDigit_of_mem_toDigits
  print_of_read_print {v w} h := by
    rw [parseUnsigned_toDigits (hmax v), Option.map_some, hof] at h
    rw [Option.some.inj h]

/-- `parse_u8`. -/
def u8 : Policy UInt8 :=
  unsigned 255 UInt8.ofNat UInt8.toNat (fun _ => true)
    (fun v => Nat.le_of_lt_succ v.toNat_lt) fun _ => UInt8.ofNat_toNat

/-- A `u16` with a range. -/
def u16 (accepts : UInt16 → Bool) : Policy UInt16 :=
  unsigned 65535 UInt16.ofNat UInt16.toNat accepts
    (fun v => Nat.le_of_lt_succ v.toNat_lt) fun _ => UInt16.ofNat_toNat

/-- A `u32` with a range. -/
def u32Within (accepts : UInt32 → Bool) : Policy UInt32 :=
  unsigned 4294967295 UInt32.ofNat UInt32.toNat accepts
    (fun v => Nat.le_of_lt_succ v.toNat_lt) fun _ => UInt32.ofNat_toNat

/-- `parse_u32`. -/
def u32 : Policy UInt32 := u32Within fun _ => true

/-- `parse_step_pulse_us`. -/
def stepPulseUs : Policy UInt32 := u32Within fun v => 1 ≤ v && v ≤ 1000

/-- `AUTO_REPORT_INTERVAL_MIN_MS`. -/
def autoReportIntervalMinMs : UInt32 := 100

/-- `AUTO_REPORT_INTERVAL_MAX_MS`. -/
def autoReportIntervalMaxMs : UInt32 := 1000

/-- `parse_auto_report_interval`. -/
def autoReportInterval : Policy UInt32 :=
  u32Within fun v =>
    v = 0 || (autoReportIntervalMinMs ≤ v && v ≤ autoReportIntervalMaxMs)

/-- `MAX_MOTOR_CURRENT_MA`. -/
def maxMotorCurrentMa : UInt16 := 2000

/-- `parse_current_ma`. -/
def currentMa : Policy UInt16 := u16 fun v => v ≤ maxMotorCurrentMa

/-- The resolutions of the stepper driver. -/
def microstepValues : List UInt16 := [1, 2, 4, 8, 16, 32, 64, 128, 256]

/-- `parse_microsteps`. -/
def microsteps : Policy UInt16 := u16 fun v => microstepValues.contains v

theorem parse_toNat (b : Bool) :
    (parseUnsigned 4294967295 (Nat.toDigits 10 b.toNat)).map (fun n => decide (n ≠ 0))
      = some b := by
  rw [parseUnsigned_toDigits (by cases b <;> decide)]
  cases b <;> rfl

/-- `parse_bool`: zero is false, and every other number true. -/
def bool : Policy Bool where
  read text := (parseUnsigned 4294967295 text).map fun n => decide (n ≠ 0)
  accepts _ := true
  print b := Nat.toDigits 10 b.toNat
  solid_print _ := solid_of_isDigit fun _ => isDigit_of_mem_toDigits
  print_of_read_print {b c} h := by
    rw [parse_toNat] at h
    rw [Option.some.inj h]

/-- A finite number, printed with three decimals. -/
def f32 (accepts : F32 → Bool) : Policy F32 where
  read := F32.parse
  accepts x := x.isFinite && accepts x
  print := F32.format 3
  solid_print := F32.solid_format 3
  print_of_read_print := F32.format_of_parse_format

/-- `parse_f32_non_negative`. -/
def f32NonNegative : Policy F32 := f32 F32.nonnegative

/-- `parse_f32_positive`. -/
def f32Positive : Policy F32 := f32 F32.positive

/-! ## Which printed values are accepted -/

/-- The printed value is accepted when it is read back. -/
def Replays (p : Policy V) (v : V) : Prop := ∃ w, p.parse (p.print v) = .ok w

theorem replays_unsigned {max : ℕ} {ofNat : ℕ → V} {toNat : V → ℕ} {accepts : V → Bool}
    {hmax : ∀ v, toNat v ≤ max} {hof : ∀ v, ofNat (toNat v) = v} {v : V}
    (h : accepts v = true) : (unsigned max ofNat toNat accepts hmax hof).Replays v := by
  refine ⟨v, parse_eq_ok_iff.2 ⟨?_, h⟩⟩
  show (parseUnsigned max (Nat.toDigits 10 (toNat v))).map ofNat = some v
  rw [parseUnsigned_toDigits (hmax v), Option.map_some, hof]

theorem replays_u8 (v : UInt8) : u8.Replays v := replays_unsigned rfl

theorem replays_u16 {accepts : UInt16 → Bool} {v : UInt16} (h : accepts v = true) :
    (u16 accepts).Replays v := replays_unsigned h

theorem replays_u32 {accepts : UInt32 → Bool} {v : UInt32} (h : accepts v = true) :
    (u32Within accepts).Replays v := replays_unsigned h

theorem replays_bool (b : Bool) : bool.Replays b :=
  ⟨b, parse_eq_ok_iff.2 ⟨parse_toNat b, rfl⟩⟩

/-- A number that may be zero is accepted again, if it is finite. -/
theorem replays_f32NonNegative_iff {x : F32} (hx : x.nonnegative = true) :
    f32NonNegative.Replays x ↔ x.isFinite = true := by
  cases x with
  | nan => exact absurd hx (by simp [F32.nonnegative])
  | inf negative =>
    refine ⟨fun ⟨w, hw⟩ => ?_, fun h => absurd h (by simp [F32.isFinite])⟩
    obtain ⟨hread, haccepts⟩ := parse_eq_ok_iff.1 hw
    obtain rfl : F32.inf negative = w := by cases negative <;> exact Option.some.inj hread
    exact absurd haccepts (by simp [f32NonNegative, f32, F32.isFinite])
  | finite negative m =>
    refine ⟨fun _ => rfl, fun _ => ?_⟩
    obtain ⟨n, hparse, -, hzero⟩ := F32.format_parse_format 3 negative m
    refine ⟨F32.finite negative n, parse_eq_ok_iff.2 ⟨hparse, ?_⟩⟩
    cases negative with
    | false => rfl
    | true =>
      -- the only number with a minus sign is zero, and it prints as zero
      have hm : m.value = 0 := by simpa [F32.nonnegative] using hx
      have hscaled : F32.scaled 3 m = 0 := by
        rw [F32.scaled_eq_zero_iff, hm, zero_mul]
        norm_num
      simp [f32NonNegative, f32, F32.isFinite, F32.nonnegative, hzero.2 hscaled]

/-- **A number that must be positive is accepted again**, unless it prints as zero. -/
theorem replays_f32Positive_iff {x : F32} (hfinite : x.isFinite = true)
    (hx : x.positive = true) : f32Positive.Replays x ↔ 1 / 2000 < x.toRat := by
  cases x with
  | nan => exact absurd hfinite (by simp [F32.isFinite])
  | inf negative => exact absurd hfinite (by simp [F32.isFinite])
  | finite negative m =>
    obtain rfl : negative = false := by
      cases negative with
      | false => rfl
      | true => exact absurd hx (by simp [F32.positive])
    obtain ⟨n, hparse, -, hzero⟩ := F32.format_parse_format 3 false m
    have haccepts : f32Positive.accepts (F32.finite false n) = true ↔ n.value ≠ 0 := by
      simp [f32Positive, f32, F32.isFinite, F32.positive]
    have hbound : n.value ≠ 0 ↔ 1 / 2000 < m.value := by
      rw [Ne, hzero, F32.scaled_eq_zero_iff, not_le]
      constructor <;> intro h <;> linarith
    show f32Positive.Replays _ ↔ 1 / 2000 < m.value
    rw [← hbound, ← haccepts]
    constructor
    · rintro ⟨w, hw⟩
      obtain ⟨hread, hw⟩ := parse_eq_ok_iff.1 hw
      obtain rfl : F32.finite false n = w := Option.some.inj (hparse.symm.trans hread)
      exact hw
    · exact fun h => ⟨_, parse_eq_ok_iff.2 ⟨hparse, h⟩⟩

end Policy

end Galdr
