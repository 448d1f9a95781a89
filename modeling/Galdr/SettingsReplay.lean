import Galdr.SettingsInvariant

/-!
# Replaying a dump

The dump of one machine, written line by line into another. Every line that is
accepted sets its field to a value that prints as the line did, and no line touches
the field of another, so a dump that is accepted on every line is the dump of the
machine it was written into.

Three kinds of lines are rejected. Soft limits are dumped before the homing cycle they
need, so that a machine without one refuses them; a positive number below half of the
last decimal is dumped as zero; and two of the numbers can be infinite, which no write
accepts. A dump without these is accepted (`replay_restores_iff`).
-/

namespace Galdr

open Text Runs

namespace Settings

/-! ## The fields are apart -/

/-- A write of a field reads back. -/
theorem SettingField.get_set (field : SettingField) (s : Settings) (axis : Fin 4) (v : field.slot.Value) :
    field.slot.get (field.slot.set s axis v) axis = v := by
  cases field <;> first | rfl | exact Function.update_self ..

/-- A write of a field leaves the other fields as they are. -/
theorem SettingField.get_set_of_ne {field other : SettingField} (h : other ≠ field) (s : Settings)
    (axis a : Fin 4) (v : field.slot.Value) :
    other.slot.get (field.slot.set s axis v) a = other.slot.get s a := by
  cases field <;> cases other <;> first | rfl | exact absurd rfl h

/-- A write of an axis leaves the other axes as they are, where there are any. -/
theorem SettingField.get_set_axis {field : SettingField} (hspan : field.axisSpan = 4) (s : Settings)
    {axis a : Fin 4} (hne : a ≠ axis) (v : field.slot.Value) :
    field.slot.get (field.slot.set s axis v) a = field.slot.get s a := by
  cases field <;> first
    | exact Function.update_of_ne hne ..
    | exact absurd hspan (by decide)

/-! ## A line of a dump -/

/-- A row of the dump: a number, and what it addresses. -/
abbrev Row := ℕ × SettingField × Fin 4

/-- The rows of the dump, in its order. -/
def dumpRows : List Row :=
  settingNumbers.filterMap fun n => (lookupDescriptor n).map fun slot => (n, slot)

/-- The line of a row. -/
def rowLine (s : Settings) (row : Row) : List Char :=
  '$' :: Nat.toDigits 10 row.1 ++ '=' :: row.2.1.format s row.2.2

theorem dumpSettings_eq (s : Settings) : s.dumpSettings = dumpRows.map s.rowLine := by
  unfold dumpSettings dumpRows
  rw [List.map_filterMap]
  congr 1
  funext n
  unfold writeSettingLine
  cases lookupDescriptor n <;> rfl

theorem lookup_of_mem_dumpRows {row : Row} (h : row ∈ dumpRows) :
    lookupDescriptor row.1 = some row.2 := by
  obtain ⟨n, -, hn⟩ := List.mem_filterMap.1 h
  cases hlookup : lookupDescriptor n with
  | none =>
    rw [hlookup] at hn
    exact absurd hn (by simp)
  | some slot =>
    rw [hlookup] at hn
    obtain rfl : (n, slot) = row := Option.some.inj hn
    exact hlookup

/-- A number that addresses a setting has a row. -/
theorem mem_dumpRows_of_lookup {n : ℕ} {slot : SettingField × Fin 4}
    (h : lookupDescriptor n = some slot) : (n, slot) ∈ dumpRows := by
  obtain ⟨number, hrow, hle, hlt⟩ := exists_of_lookup h
  have hn : n ∈ rowNumbers (number, slot.1) :=
    List.mem_map.2 ⟨n - number, List.mem_range.2 (Nat.sub_lt_left_of_lt_add hle hlt),
      Nat.add_sub_of_le hle⟩
  refine List.mem_filterMap.2 ⟨n, List.mem_flatMap.2 ⟨_, hrow, hn⟩, ?_⟩
  rw [h]
  rfl

theorem number_le_of_mem_dumpRows : ∀ row ∈ dumpRows, row.1 ≤ 65535 := by
  decide +kernel

/-- A field with one value is dumped once. -/
theorem axis_lt_of_mem_dumpRows : ∀ row ∈ dumpRows, row.2.2.val < row.2.1.axisSpan := by
  decide +kernel

/-- No two lines of a dump are about the same value. -/
theorem nodup_dumpRows : (dumpRows.map Prod.snd).Nodup := by
  decide +kernel

/-- Soft limits are not dumped after the homing cycle. -/
theorem softLimits_before_homing :
    dumpRows.Pairwise fun row later =>
      row.2.1 = .homingFlags → later.2.1 ≠ .softLimitsEnable := by
  decide +kernel

/-- Every value is dumped. -/
theorem exists_mem_dumpRows : ∀ (field : SettingField) (axis : Fin 4),
    ∃ row ∈ dumpRows, row.2.1 = field ∧ (row.2.2 = axis ∨ field.axisSpan = 1) := by
  intro field
  cases field <;> decide +kernel

/-- The number of a line, and its text. -/
theorem splitOnce_toDigits (n : ℕ) (value : List Char) :
    splitOnce (Nat.toDigits 10 n ++ '=' :: value) = some (Nat.toDigits 10 n, value) := by
  have hnumber : ∀ c ∈ Nat.toDigits 10 n, decide (c ≠ '=') = true := fun c hc => by
    refine decide_eq_true fun heq => ?_
    subst heq
    exact absurd (isDigit_of_mem_toDigits hc) (by decide)
  unfold splitOnce
  rw [List.dropWhile_append_of_pos hnumber, List.takeWhile_append_of_pos hnumber]
  simp

theorem trim_toDigits (n : ℕ) : trim (Nat.toDigits 10 n) = Nat.toDigits 10 n :=
  trim_eq_self (solid_of_isDigit fun _ => isDigit_of_mem_toDigits)

/-- **A written line is the write of its number**, if it is within the type of the numbers. -/
theorem writeLine_eq (d : Settings) (n : ℕ) (value : List Char) :
    d.writeLine ('$' :: Nat.toDigits 10 n ++ '=' :: value)
      = if n ≤ 65535 then d.setCommand n (trim value) else (.error .badValue, d) := by
  show d.writeSettingCommand (Nat.toDigits 10 n ++ '=' :: value) = _
  unfold writeSettingCommand
  rw [splitOnce_toDigits]
  simp only [trim_toDigits, parseUnsigned_toDigits_eq]
  split_ifs <;> rfl

/-- The line of a row is the write of its number. -/
theorem writeLine_rowLine (d s : Settings) {row : Row} (h : row ∈ dumpRows) :
    d.writeLine (s.rowLine row) = d.setCommand row.1 (row.2.1.format s row.2.2) := by
  have hsolid : Solid (row.2.1.format s row.2.2) := row.2.1.slot.policy.solid_print _
  unfold rowLine
  rw [writeLine_eq, if_pos (number_le_of_mem_dumpRows row h), trim_eq_self hsolid]

/-- A write in range is made, with soft limits if the homing cycle is on. -/
theorem setCommand_eq {s : Settings} {n : ℕ} {value : List Char} {field : SettingField}
    {axis : Fin 4} {v : field.slot.Value} (hlookup : lookupDescriptor n = some (field, axis))
    (hparse : field.slot.policy.parse (trim value) = .ok v)
    (hsoft : field = .softLimitsEnable →
      (field.slot.set s axis v).softLimitsEnable = true → s.homingEnabled = true) :
    s.setCommand n value = (.ok (), field.slot.set s axis v) := by
  have happly : field.parseAndApply s axis (trim value) = (.ok (), field.slot.set s axis v) := by
    unfold SettingField.parseAndApply
    rw [hparse]
  unfold setCommand
  rw [hlookup]
  by_cases hfield : field = .softLimitsEnable
  · subst hfield
    have hparse' : Policy.bool.parse (trim value) = .ok v := hparse
    have hrefused : (v && !s.homingEnabled) = false := by
      cases hv : v with
      | false => rfl
      | true =>
        have hon : s.homingEnabled = true := hsoft rfl hv
        rw [hon]
        rfl
    simp only [if_true, hparse']
    rw [if_neg (by rw [hrefused]; exact Bool.false_ne_true), happly]
  · simp only [hfield, if_false, happly]

/-- The line of a row is accepted: its value is read back in range, and soft limits meet
the homing cycle they need. -/
structure Accepts (d s : Settings) (row : Row) : Prop where
  /-- What is printed is accepted. -/
  replays : row.2.1.slot.policy.Replays (row.2.1.slot.get s row.2.2)
  /-- Soft limits need the homing cycle. -/
  softLimits : row.2.1 = .softLimitsEnable → s.softLimitsEnable = true → d.homingEnabled = true

/-- **What a line of a dump does**: it is accepted or not, and where it is, the field
prints as the line did. -/
theorem writeLine_cases (d s : Settings) {row : Row} (h : row ∈ dumpRows) :
    (¬Accepts d s row ∧ (d.writeLine (s.rowLine row)).1 ≠ .ok ()
      ∧ (d.writeLine (s.rowLine row)).2 = d)
    ∨ (Accepts d s row ∧ ∃ v, d.writeLine (s.rowLine row)
          = (.ok (), row.2.1.slot.set d row.2.2 v)
        ∧ row.2.1.slot.policy.print v = row.2.1.format s row.2.2) := by
  obtain ⟨n, field, axis⟩ := row
  have hlookup : lookupDescriptor n = some (field, axis) := lookup_of_mem_dumpRows h
  have htrim : trim (field.format s axis) = field.format s axis :=
    trim_eq_self (field.slot.policy.solid_print _)
  have hwrite : d.writeLine (s.rowLine (n, field, axis))
      = d.setCommand n (field.format s axis) := writeLine_rowLine d s h
  -- the soft limits that are read back are those that were printed
  have hbool : ∀ v : field.slot.Value, field.slot.policy.parse (field.format s axis) = .ok v →
      field = .softLimitsEnable →
      (field.slot.set d axis v).softLimitsEnable = s.softLimitsEnable := fun v hv hfield => by
    subst hfield
    have hread : Policy.bool.read (Policy.bool.print s.softLimitsEnable) = some v :=
      (Policy.parse_eq_ok_iff.1 hv).1
    exact Option.some.inj (hread.symm.trans (Policy.parse_toNat s.softLimitsEnable))
  rw [hwrite]
  by_cases haccepts : Accepts d s (n, field, axis)
  · right
    obtain ⟨v, hv⟩ := haccepts.replays
    refine ⟨haccepts, v, setCommand_eq hlookup (htrim.symm ▸ hv) fun hfield hon => ?_, ?_⟩
    · exact haccepts.softLimits hfield ((hbool v hv hfield).symm.trans hon)
    · exact field.slot.policy.print_of_read_print (Policy.parse_eq_ok_iff.1 hv).1
  · left
    rcases setCommand_cases d n (field.format s axis) with
      ⟨e, heq⟩ | ⟨field', axis', v, hlookup', hparse, heq, hsoft⟩
    · rw [heq]
      exact ⟨haccepts, by simp, rfl⟩
    · rw [hlookup] at hlookup'
      obtain ⟨rfl, rfl⟩ := Prod.mk.inj (Option.some.inj hlookup')
      rw [htrim] at hparse
      refine absurd ⟨⟨v, hparse⟩, fun hfield hon => ?_⟩ haccepts
      exact hsoft hfield ((hbool v hparse hfield).trans hon)

/-! ## A run of lines -/

/-- The settings after a line. -/
def afterLine (d : Settings) (line : List Char) : Settings := (d.writeLine line).2

/-- The line is accepted. -/
def LineAccepted (d : Settings) (line : List Char) : Prop := (d.writeLine line).1 = .ok ()

/-- A write leaves what another row of the dump is about as it is. -/
theorem get_set_row (d : Settings) {row other : Row} (h : row ∈ dumpRows)
    (ho : other ∈ dumpRows) (hne : other.2 ≠ row.2) (v : row.2.1.slot.Value) :
    other.2.1.slot.get (row.2.1.slot.set d row.2.2 v) other.2.2
      = other.2.1.slot.get d other.2.2 := by
  obtain ⟨n, field, axis⟩ := row
  obtain ⟨m, field', axis'⟩ := other
  by_cases hfield : field' = field
  · -- two axes of one field, which has four then
    subst hfield
    have haxis : axis' ≠ axis := fun heq => hne (by rw [heq])
    have hlt : axis.val < field'.axisSpan := axis_lt_of_mem_dumpRows _ h
    have hlt' : axis'.val < field'.axisSpan := axis_lt_of_mem_dumpRows _ ho
    have hspan : field'.axisSpan = 4 := by
      have hval : axis'.val ≠ axis.val := fun heq => haxis (Fin.ext heq)
      cases field' <;> first
        | rfl
        | (have h1 : axis.val < 1 := hlt
           have h2 : axis'.val < 1 := hlt'
           omega)
    exact SettingField.get_set_axis hspan d haxis v
  · exact SettingField.get_set_of_ne hfield d axis axis' v

/-- A line leaves what another row of the dump is about as it is. -/
theorem get_afterLine (d s : Settings) {row other : Row} (h : row ∈ dumpRows)
    (ho : other ∈ dumpRows) (hne : other.2 ≠ row.2) :
    other.2.1.slot.get (d.afterLine (s.rowLine row)) other.2.2
      = other.2.1.slot.get d other.2.2 := by
  unfold afterLine
  rcases writeLine_cases d s h with ⟨-, -, heq⟩ | ⟨-, v, heq, -⟩
  · rw [heq]
  · rw [heq]
    exact get_set_row d h ho hne v

/-- **Lines do not touch what they are not about.** -/
theorem get_foldl_afterLine (s : Settings) {other : Row} (ho : other ∈ dumpRows)
    {rows : List Row} (hrows : ∀ row ∈ rows, row ∈ dumpRows)
    (hne : other.2 ∉ rows.map Prod.snd) (d : Settings) :
    other.2.1.slot.get ((rows.map s.rowLine).foldl afterLine d) other.2.2
      = other.2.1.slot.get d other.2.2 := by
  induction rows generalizing d with
  | nil => rfl
  | cons row rows ih =>
    rw [List.map_cons, List.mem_cons, not_or] at hne
    show other.2.1.slot.get ((rows.map s.rowLine).foldl afterLine
      (d.afterLine (s.rowLine row))) other.2.2 = _
    rw [ih (fun r hr => hrows r (List.mem_cons_of_mem _ hr)) hne.2,
      get_afterLine d s (hrows row (List.mem_cons_self ..)) ho hne.1]

/-- **Accepted lines print again as they were.** -/
theorem format_foldl_afterLine (s : Settings) {rows : List Row}
    (hrows : ∀ row ∈ rows, row ∈ dumpRows) (hnodup : (rows.map Prod.snd).Nodup)
    (d : Settings) (hallowed : Allowed afterLine LineAccepted d (rows.map s.rowLine)) :
    ∀ row ∈ rows, row.2.1.format ((rows.map s.rowLine).foldl afterLine d) row.2.2
      = row.2.1.format s row.2.2 := by
  induction rows generalizing d with
  | nil => exact fun row hrow => absurd hrow (by simp)
  | cons head rows ih =>
    rw [List.map_cons, List.nodup_cons] at hnodup
    obtain ⟨hhead, hrest⟩ := hallowed
    have hmem := hrows head (List.mem_cons_self ..)
    have htail : ∀ row ∈ rows, row ∈ dumpRows := fun r hr =>
      hrows r (List.mem_cons_of_mem _ hr)
    intro row hrow
    rcases List.mem_cons.1 hrow with rfl | hrow
    · -- the lines after it leave it as it was written
      have hframe := get_foldl_afterLine s hmem htail hnodup.1 (d.afterLine (s.rowLine row))
      show row.2.1.slot.policy.print (row.2.1.slot.get ((rows.map s.rowLine).foldl afterLine
        (d.afterLine (s.rowLine row))) row.2.2) = _
      rw [hframe]
      rcases writeLine_cases d s hmem with ⟨-, hrejected, -⟩ | ⟨-, v, heq, hprint⟩
      · exact absurd hhead hrejected
      · unfold afterLine
        rw [heq, SettingField.get_set]
        exact hprint
    · exact ih htail hnodup.2 _ hrest row hrow

/-- A line that is not about the homing cycle leaves it as it is. -/
theorem homingEnabled_afterLine (d s : Settings) {row : Row} (h : row ∈ dumpRows)
    (hne : row.2.1 ≠ .homingFlags) :
    (d.afterLine (s.rowLine row)).homingEnabled = d.homingEnabled := by
  have hrow : ((22, .homingFlags, 0) : Row) ∈ dumpRows := by decide +kernel
  have hget := get_afterLine d s h hrow fun heq => hne (Prod.mk.inj heq).1.symm
  have hflags : (d.afterLine (s.rowLine row)).homingFlags = d.homingFlags := hget
  unfold homingEnabled
  rw [hflags]

/-- **A dump is accepted line by line**: what the lines before it change does not decide
whether a line is accepted. -/
theorem allowed_iff (s : Settings) {rows : List Row} (hrows : ∀ row ∈ rows, row ∈ dumpRows)
    (horder : rows.Pairwise fun row later =>
      row.2.1 = .homingFlags → later.2.1 ≠ .softLimitsEnable) (d : Settings) :
    Allowed afterLine LineAccepted d (rows.map s.rowLine) ↔ ∀ row ∈ rows, Accepts d s row := by
  induction rows generalizing d with
  | nil => simp [Allowed]
  | cons head rows ih =>
    obtain ⟨hhead, horder⟩ := List.pairwise_cons.1 horder
    have hmem := hrows head (List.mem_cons_self ..)
    have hline : LineAccepted d (s.rowLine head) ↔ Accepts d s head := by
      rcases writeLine_cases d s hmem with ⟨hnot, hrejected, -⟩ | ⟨haccepts, v, heq, -⟩
      · exact iff_of_false hrejected hnot
      · exact iff_of_true (by unfold LineAccepted; rw [heq]) haccepts
    have hstep : ∀ row ∈ rows,
        (Accepts (d.afterLine (s.rowLine head)) s row ↔ Accepts d s row) := fun row hrow => by
      by_cases hhoming : head.2.1 = .homingFlags
      · have hsoft := hhead row hrow hhoming
        exact ⟨fun h => ⟨h.replays, fun hfield => absurd hfield hsoft⟩,
          fun h => ⟨h.replays, fun hfield => absurd hfield hsoft⟩⟩
      · have heq := homingEnabled_afterLine d s hmem hhoming
        exact ⟨fun h => ⟨h.replays, fun hfield hon => heq ▸ h.softLimits hfield hon⟩,
          fun h => ⟨h.replays, fun hfield hon => heq.symm ▸ h.softLimits hfield hon⟩⟩
    show LineAccepted d (s.rowLine head)
      ∧ Allowed afterLine LineAccepted (d.afterLine (s.rowLine head)) (rows.map s.rowLine) ↔ _
    rw [hline, ih (fun r hr => hrows r (List.mem_cons_of_mem _ hr)) horder,
      List.forall_mem_cons]
    exact and_congr_right fun _ => forall₂_congr hstep

/-! ## What a dump restores -/

/-- What the settings must be like for their dump to be accepted by another machine. -/
structure Replayable (d s : Settings) : Prop where
  /-- Soft limits are dumped before the homing cycle they need. -/
  softLimits : s.softLimitsEnable = true → d.homingEnabled = true
  /-- `$12` does not print as zero. -/
  arcTolerance : 1 / 2000 < s.arcToleranceMm.toRat
  /-- `$24` does not print as zero. -/
  homingFeed : 1 / 2000 < s.homingFeedMmMin.toRat
  /-- `$25` does not print as zero. -/
  homingSeek : 1 / 2000 < s.homingSeekMmMin.toRat
  /-- `$27` is a length. -/
  homingPulloff : s.homingPulloffMm.isFinite = true
  /-- `$30` does not print as zero. -/
  spindleRpmMax : 1 / 2000 < s.spindleRpmMax.toRat
  /-- `$31` is a speed. -/
  spindleRpmMin : s.spindleRpmMin.isFinite = true
  /-- `$100` to `$103` do not print as zero. -/
  stepsPerMm : ∀ axis, 1 / 2000 < (s.stepsPerMm axis).toRat
  /-- `$110` to `$113` do not print as zero. -/
  maxRate : ∀ axis, 1 / 2000 < (s.maxRateMmMin axis).toRat
  /-- `$120` to `$123` do not print as zero. -/
  accel : ∀ axis, 1 / 2000 < (s.accelMmS2 axis).toRat
  /-- `$130` to `$133` do not print as zero. -/
  maxTravel : ∀ axis, 1 / 2000 < (s.maxTravelMm axis).toRat

theorem replays_positive_iff {x : F32} (h : Policy.f32Positive.accepts x = true) :
    Policy.f32Positive.Replays x ↔ 1 / 2000 < x.toRat :=
  Policy.replays_f32Positive_iff (Bool.and_eq_true_iff.1 h).1 (Bool.and_eq_true_iff.1 h).2

theorem replays_nonNegative {x : F32} (h : Policy.f32NonNegative.accepts x = true) :
    Policy.f32NonNegative.Replays x :=
  (Policy.replays_f32NonNegative_iff (Bool.and_eq_true_iff.1 h).2).2 (Bool.and_eq_true_iff.1 h).1

/-- The values of sound settings that are accepted when they are read back. -/
theorem Sane.replays {d s : Settings} (hs : Sane s) (h : Replayable d s) (field : SettingField)
    (axis : Fin 4) : field.slot.policy.Replays (field.slot.get s axis) := by
  cases field with
  | stepPulseUs => exact Policy.replays_u32 hs.stepPulse
  | stepInvertMask | dirInvertMask | statusReportMask | hardLimitFlags | homingFlags
  | homingDirInvertMask | rotaryMask => exact Policy.replays_u8 _
  | stepIdleDelayMs | homingDebounceMs => exact Policy.replays_u32 rfl
  | limitInvert | probeInvert | probePullupDisable | softLimitsEnable =>
    exact Policy.replays_bool _
  | junctionDeviationMm => exact replays_nonNegative hs.junctionDeviation
  | arcToleranceMm => exact (replays_positive_iff hs.arcTolerance).2 h.arcTolerance
  | homingFeedMmMin => exact (replays_positive_iff hs.homingFeed).2 h.homingFeed
  | homingSeekMmMin => exact (replays_positive_iff hs.homingSeek).2 h.homingSeek
  | homingPulloffMm =>
    exact (Policy.replays_f32NonNegative_iff hs.homingPulloff).2 h.homingPulloff
  | spindleRpmMax => exact (replays_positive_iff hs.spindleRpmMax).2 h.spindleRpmMax
  | spindleRpmMin =>
    exact (Policy.replays_f32NonNegative_iff hs.spindleRpmMin).2 h.spindleRpmMin
  | spindleOnDelayS => exact replays_nonNegative hs.spindleOnDelay
  | spindleReverseDwellS => exact replays_nonNegative hs.spindleReverseDwell
  | autoReportIntervalMs => exact Policy.replays_u32 hs.autoReportInterval
  | stepsPerMm => exact (replays_positive_iff (hs.stepsPerMm axis)).2 (h.stepsPerMm axis)
  | maxRateMmMin => exact (replays_positive_iff (hs.maxRate axis)).2 (h.maxRate axis)
  | accelMmS2 => exact (replays_positive_iff (hs.accel axis)).2 (h.accel axis)
  | maxTravelMm => exact (replays_positive_iff (hs.maxTravel axis)).2 (h.maxTravel axis)
  | runCurrentMa => exact Policy.replays_u16 (hs.runCurrent axis)
  | microsteps => exact Policy.replays_u16 (hs.microsteps axis)

/-- What every line of a dump being accepted says of the settings. -/
theorem Sane.replayable {d s : Settings} (hs : Sane s)
    (h : ∀ (field : SettingField) (axis : Fin 4), field.slot.policy.Replays (field.slot.get s axis))
    (hsoft : s.softLimitsEnable = true → d.homingEnabled = true) : Replayable d s where
  softLimits := hsoft
  arcTolerance := (replays_positive_iff hs.arcTolerance).1 (h .arcToleranceMm 0)
  homingFeed := (replays_positive_iff hs.homingFeed).1 (h .homingFeedMmMin 0)
  homingSeek := (replays_positive_iff hs.homingSeek).1 (h .homingSeekMmMin 0)
  homingPulloff :=
    (Policy.replays_f32NonNegative_iff hs.homingPulloff).1 (h .homingPulloffMm 0)
  spindleRpmMax := (replays_positive_iff hs.spindleRpmMax).1 (h .spindleRpmMax 0)
  spindleRpmMin :=
    (Policy.replays_f32NonNegative_iff hs.spindleRpmMin).1 (h .spindleRpmMin 0)
  stepsPerMm axis := (replays_positive_iff (hs.stepsPerMm axis)).1 (h .stepsPerMm axis)
  maxRate axis := (replays_positive_iff (hs.maxRate axis)).1 (h .maxRateMmMin axis)
  accel axis := (replays_positive_iff (hs.accel axis)).1 (h .accelMmS2 axis)
  maxTravel axis := (replays_positive_iff (hs.maxTravel axis)).1 (h .maxTravelMm axis)

/-- A field with one value has it on every axis. -/
theorem SettingField.get_of_axisSpan {field : SettingField} (h : field.axisSpan = 1) (s : Settings)
    (axis axis' : Fin 4) : field.slot.get s axis = field.slot.get s axis' := by
  cases field <;> first | rfl | exact absurd h (by decide)

/-- **The lines of a dump that are accepted** are all of them, exactly if the settings
are replayable. -/
theorem accepts_iff {d s : Settings} (hs : Sane s) :
    (∀ row ∈ dumpRows, Accepts d s row) ↔ Replayable d s := by
  constructor
  · intro h
    refine hs.replayable (fun field axis => ?_) ?_
    · obtain ⟨row, hrow, rfl, haxis⟩ := exists_mem_dumpRows field axis
      have hreplays := (h row hrow).replays
      rcases haxis with rfl | hspan
      · exact hreplays
      · rw [SettingField.get_of_axisSpan hspan s axis row.2.2]
        exact hreplays
    · have hrow : ((20, .softLimitsEnable, 0) : Row) ∈ dumpRows := by decide +kernel
      exact (h _ hrow).softLimits rfl
  · intro h row _
    exact ⟨hs.replays h row.2.1 row.2.2, fun _ => h.softLimits⟩

/-- **Replaying a dump.** The dump of one machine is accepted by another on every line
and leaves it with the same dump, exactly if the settings are replayable: soft limits
are off or the other machine homes already, no number that must be positive prints as
zero, and the two numbers that can be infinite are not. -/
theorem replay_restores_iff (s d : Settings) :
    (Allowed afterLine LineAccepted d.sanitized s.sanitized.dumpSettings
        ∧ (s.sanitized.dumpSettings.foldl afterLine d.sanitized).dumpSettings
          = s.sanitized.dumpSettings)
      ↔ Replayable d.sanitized s.sanitized := by
  rw [← accepts_iff (sane_sanitized s), dumpSettings_eq,
    ← allowed_iff s.sanitized (fun _ => id) softLimits_before_homing]
  refine and_iff_left_of_imp fun hallowed => ?_
  rw [dumpSettings_eq]
  refine List.map_congr_left fun row hrow => ?_
  have hformat :=
    format_foldl_afterLine s.sanitized (fun _ => id) nodup_dumpRows _ hallowed row hrow
  exact congrArg (fun value => '$' :: Nat.toDigits 10 row.1 ++ '=' :: value) hformat

/-- **Soft limits are refused before the homing cycle is on**: the dump of a machine with
both is rejected by a new machine. -/
theorem not_replay_restores :
    ¬∀ s d : Settings, Allowed afterLine LineAccepted d.sanitized s.sanitized.dumpSettings
      ∧ (s.sanitized.dumpSettings.foldl afterLine d.sanitized).dumpSettings
        = s.sanitized.dumpSettings := by
  intro h
  have hsane : Sane homed := { sane_default with softLimits := fun _ => by decide }
  have hreplay := (replay_restores_iff homed default).1 (h homed default)
  rw [hsane.sanitized_eq, sane_default.sanitized_eq] at hreplay
  exact absurd (hreplay.softLimits rfl) (by decide)

end Settings

end Galdr
