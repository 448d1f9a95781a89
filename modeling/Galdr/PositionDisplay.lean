import Galdr.RefreshCadence
import Galdr.Runs
import Galdr.StatusRoundTrip

/-!
# The positions a host shows

A report carries one position, of the machine or of the work, and the host makes the other one
from the offset it was told last. The firmware prints the offset whenever it changed, so that
the offset a host remembers is the one of the report before it, rounded to the printed decimals
(`Remembers`). What the host shows is then off by those roundings, by that of the firmware's own
difference when it reports work positions, and by the host's arithmetic.
-/

namespace Galdr.Telemetry

open Text Host Status

/-! ## The comparison of offsets -/

/-- Numbers by the machine's own comparison, axis by axis. -/
instance : PartialEq (Axes F32) where
  eq a b := (List.finRange 4).all fun axis => (a axis).eq (b axis)

theorem eq_axis {a b : Axes F32} (h : PartialEq.eq a b = true) (axis : Fin 4) :
    (a axis).eq (b axis) = true :=
  List.all_eq_true.1 h axis (List.mem_finRange axis)

/-- Numbers that compare as equal are read alike when they are printed. -/
theorem printed_congr {x y : F32} (h : x.eq y = true) (count : ℕ) :
    F64.printed count x = F64.printed count y := by
  cases x with
  | nan => cases y <;> exact absurd h Bool.false_ne_true
  | inf a =>
    cases y with
    | inf b => rw [of_decide_eq_true h]
    | _ => exact absurd h Bool.false_ne_true
  | finite a m =>
    cases y with
    | finite b n =>
      have hvalue : (if a then -m.value else m.value) = if b then -n.value else n.value :=
        of_decide_eq_true h
      have hm := m.representable.nonneg
      have hn := n.representable.nonneg
      have hscaled (k : Binary32.Magnitude) (hk : k.value = 0) : F32.scaled count k = 0 :=
        (F32.scaled_eq_zero_iff count k).2 (by rw [hk]; norm_num)
      have hsame : m.value = n.value ∧ (a = b ∨ m.value = 0) := by
        cases a <;> cases b <;> simp only [if_true, if_false, Bool.false_eq_true] at hvalue
        · exact ⟨hvalue, .inl rfl⟩
        · exact ⟨by linarith, .inr (by linarith)⟩
        · exact ⟨by linarith, .inr (by linarith)⟩
        · exact ⟨by linarith, .inl rfl⟩
      obtain rfl : m = n := Binary32.Magnitude.ext_value hsame.1
      rcases hsame.2 with rfl | hzero
      · rfl
      · rw [F64.printed_finite, F64.printed_finite, hscaled m hzero, Nat.cast_zero, zero_div,
          neg_zero, ite_self, ite_self]
    | _ => exact absurd h Bool.false_ne_true

theorem printedAxes_congr {a b : Axes F32} (h : PartialEq.eq a b = true) :
    printedAxes a = printedAxes b := by
  unfold printedAxes
  rw [printed_congr (eq_axis h xAxis), printed_congr (eq_axis h yAxis),
    printed_congr (eq_axis h zAxis), printed_congr (eq_axis h aAxis)]

/-! ## The view -/

/-- What a host keeps of the reports. -/
structure ViewState where
  /-- The last report. -/
  status : Option StatusReport
  /-- The offset it was told last, empty before the first. -/
  lastWco : List F64
  /-- The overrides it was told last. -/
  lastOverrides : Option (ℕ × ℕ × ℕ)
  /-- The asserted pins of the last report. -/
  pins : List Char

namespace ViewState

/-- A view of a new connection. -/
def new : ViewState := ⟨none, [], none, []⟩

/-- A response comes in. None but a status report changes what is kept of the reports. -/
def onResponse (view : ViewState) : Response → ViewState
  | .status body =>
    let report := parseStatus body
    { status := some report
      lastWco := report.wco.getD view.lastWco
      lastOverrides := report.overrides.orElse fun _ => view.lastOverrides
      pins := report.pins }
  | _ => view

/-- The position that the last report left out, from the offset. -/
def deriveOtherPosition (view : ViewState) (status : StatusReport) : Option (List F64) :=
  if view.lastWco = [] ∨ view.lastWco.length ≠ status.position.length then none
  else some (List.zipWith (fun p wco =>
    match status.positionKind with
    | .machine => p.sub wco
    | .work => p.add wco) status.position view.lastWco)

/-- The positions of the machine and of the work. -/
def dro (view : ViewState) : Option (List F64) × Option (List F64) :=
  match view.status with
  | none => (none, none)
  | some status =>
    match status.positionKind with
    | .machine => (some status.position, view.deriveOtherPosition status)
    | .work => (view.deriveOtherPosition status, some status.position)

theorem dro_machine {view : ViewState} {status : StatusReport} (hstatus : view.status = some status)
    (hkind : status.positionKind = .machine) :
    view.dro = (some status.position, view.deriveOtherPosition status) := by
  unfold dro
  rw [hstatus]
  dsimp only
  rw [hkind]

theorem dro_work {view : ViewState} {status : StatusReport} (hstatus : view.status = some status)
    (hkind : status.positionKind = .work) :
    view.dro = (view.deriveOtherPosition status, some status.position) := by
  unfold dro
  rw [hstatus]
  dsimp only
  rw [hkind]

/-- A line comes in, as it was sent. -/
def receive (view : ViewState) (text : List Char) : ViewState :=
  match parseLine (text.rdropWhile fun c => c = '\r' || c = '\n') with
  | some response => view.onResponse response
  | none => view

/-- **What a report leaves in the view.** -/
theorem receive_report (view : ViewState) {capacity : ℕ} {snap : MachineSnapshot}
    {text : List Char} (h : statusReport capacity snap = some text) :
    view.receive text = view.onResponse (.status (Status.body snap)) := by
  rw [statusReport_eq, flatten_writes] at h
  obtain rfl := Option.some.inj (Option.ite_none_right_eq_some.1 h).2
  have hline : ('<' :: Status.body snap ++ ">\r\n".toList).rdropWhile
      (fun c => c = '\r' || c = '\n') = '<' :: (Status.body snap ++ ['>']) := by
    have hsplit : '<' :: Status.body snap ++ ">\r\n".toList
        = '<' :: (Status.body snap ++ ['>']) ++ ['\r'] ++ ['\n'] := by
      show '<' :: (Status.body snap ++ ['>', '\r', '\n']) = _
      simp
    rw [hsplit, List.rdropWhile_concat_pos _ _ _ (by decide),
      List.rdropWhile_concat_pos _ _ _ (by decide)]
    exact List.rdropWhile_concat_neg _ ('<' :: Status.body snap) _ (by decide)
  unfold receive
  rw [hline, parseLine_status]

end ViewState

/-! ## A link -/

/-- The firmware's reporter and the host's view. -/
structure Link where
  reporter : RefreshReporter (Axes F32)
  view : ViewState

namespace Link

/-- What happens on the firmware's side. -/
inductive Event
  /-- A snapshot is to be reported. -/
  | report (snap : MachineSnapshot)
  /-- The cadence starts again. -/
  | reset (baseline : Axes F32)

/-- The snapshot that is printed: the reporter decides about the offset. -/
def decided (s : Link) (snap : MachineSnapshot) : MachineSnapshot :=
  { snap with includeWco := (s.reporter.shouldInclude snap.wcoMm).1 }

/-- A report is made and arrives, unless it does not fit; its decision counts either way. -/
def step (capacity : ℕ) (s : Link) : Event → Link
  | .reset baseline => { s with reporter := .new baseline }
  | .report snap =>
    { reporter := (s.reporter.shouldInclude snap.wcoMm).2
      view := match statusReport capacity (s.decided snap) with
        | some text => s.view.receive text
        | none => s.view }

/-- The report fits the buffer. -/
def Fits (capacity : ℕ) (s : Link) : Event → Prop
  | .report snap => ∃ text, statusReport capacity (s.decided snap) = some text
  | .reset _ => True

/-- After the first report a host that was told an offset remembers the one reported last. -/
def Remembers (s : Link) : Prop :=
  s.reporter.forceFirst = false → s.view.lastWco ≠ [] →
    s.view.lastWco = printedAxes s.reporter.lastReported

theorem step_report {capacity : ℕ} {s : Link} {snap : MachineSnapshot}
    (h : Fits capacity s (.report snap)) :
    s.step capacity (.report snap)
      = ⟨(s.reporter.shouldInclude snap.wcoMm).2,
        s.view.onResponse (.status (Status.body (s.decided snap)))⟩ := by
  obtain ⟨text, htext⟩ := h
  show Link.mk _ (match statusReport capacity (s.decided snap) with
    | some text => s.view.receive text
    | none => s.view) = _
  rw [htext]
  dsimp only
  rw [s.view.receive_report htext]

theorem lastWco_onResponse (view : ViewState) (snap : MachineSnapshot) :
    (view.onResponse (.status (Status.body snap))).lastWco
      = if snap.includeWco then printedAxes snap.wcoMm else view.lastWco := by
  unfold ViewState.onResponse
  dsimp only
  rw [parseStatus_body]
  unfold reported
  cases snap.includeWco <;> rfl

/-- **A report that fits keeps the offset remembered**, and it is that of the report. -/
theorem Remembers.report {capacity : ℕ} {s : Link} (h : s.Remembers) {snap : MachineSnapshot}
    (hfits : Fits capacity s (.report snap)) :
    let next := s.step capacity (.report snap)
    next.view.lastWco ≠ [] → next.view.lastWco = printedAxes snap.wcoMm := by
  dsimp only
  rw [step_report hfits]
  dsimp only
  rw [lastWco_onResponse]
  rcases s.reporter.shouldInclude_cases snap.wcoMm with hinclude | ⟨hfirst, hlike, -, homit⟩
  · have hdecided : (s.decided snap).includeWco = true := by
      unfold decided
      rw [hinclude]
    rw [if_pos hdecided]
    exact fun _ => rfl
  · have hdecided : (s.decided snap).includeWco = false := by
      unfold decided
      rw [homit]
    rw [hdecided, if_neg Bool.false_ne_true]
    exact fun hne => (h hfirst hne).trans (printedAxes_congr hlike).symm

theorem Remembers.step {capacity : ℕ} {s : Link} (h : s.Remembers) (event : Event)
    (hfits : Fits capacity s event) : (s.step capacity event).Remembers := by
  cases event with
  | reset baseline => exact fun hfirst => absurd hfirst Bool.true_eq_false.mp
  | report snap =>
    intro _ hne
    rw [h.report hfits hne]
    rcases s.reporter.shouldInclude_cases snap.wcoMm with hinclude | ⟨-, hlike, -, homit⟩
    · show _ = printedAxes (s.reporter.shouldInclude snap.wcoMm).2.lastReported
      rw [hinclude]
    · show _ = printedAxes (s.reporter.shouldInclude snap.wcoMm).2.lastReported
      rw [homit]
      exact printedAxes_congr hlike

end Link

end Galdr.Telemetry

/-! ## How far a printed number is off -/

namespace F64

open Binary32

/-- **A printed number is off by a half of its last decimal**, and by the host's own rounding. -/
theorem printed_near (count : ℕ) {x : F32} (h : x.isFinite = true) :
    ∃ v, printed count x = finite v
      ∧ |v - x.toRat| ≤ 1 / (2 * 10 ^ count) + (|x.toRat| + 1) / 2 ^ 53
      ∧ |v| ≤ 2 * |x.toRat| + 1 ∧ |x.toRat| < 2 ^ (128 : ℤ) := by
  cases x with
  | nan => exact absurd h Bool.false_ne_true
  | inf negative => exact absurd h Bool.false_ne_true
  | finite negative m =>
    have hpow : (0 : ℚ) < 10 ^ count := by positivity
    have hone : (1 : ℚ) ≤ 10 ^ count := one_le_pow₀ (by norm_num)
    have hm := m.representable.nonneg
    have hlarge := F32.Magnitude.add_one_lt m
    -- the printed decimal, and how far it is from the magnitude
    set q : ℚ := (F32.scaled count m : ℚ) / 10 ^ count with hq
    have hq0 : 0 ≤ q := by positivity
    have hnear : |q - m.value| ≤ 1 / (2 * 10 ^ count) := by
      have hhalf := abs_sub_halfEven_le (m.value * 10 ^ count)
      rw [← F32.cast_scaled, abs_sub_comm] at hhalf
      have hscale : q - m.value
          = ((F32.scaled count m : ℚ) - m.value * 10 ^ count) / 10 ^ count := by
        rw [hq, sub_div, mul_div_cancel_right₀ _ hpow.ne']
      rw [hscale, abs_div, abs_of_pos hpow, div_le_div_iff₀ hpow (by positivity)]
      nlinarith
    have hhalf : 1 / (2 * 10 ^ count) ≤ (1 / 2 : ℚ) := by
      rw [div_le_div_iff₀ (by positivity) (by norm_num)]
      linarith
    have hqle : q ≤ m.value + 1 / 2 := by linarith [(abs_le.1 hnear).2]
    -- both carry the sign of the number
    set s : ℚ := if negative then -q else q with hs
    have habs : |s| = q := by
      rw [hs]
      split_ifs
      · rw [abs_neg, abs_of_nonneg hq0]
      · exact abs_of_nonneg hq0
    have hsign : |s - (F32.finite negative m).toRat| = |q - m.value| := by
      rw [hs]
      show |(if negative then -q else q) - if negative then -m.value else m.value| = _
      cases negative
      · rfl
      · simp only [if_true]
        rw [← abs_neg]
        congr 1
        ring
    have hvalue : |(F32.finite negative m).toRat| = m.value := by
      show |if negative then -m.value else m.value| = _
      cases negative
      · exact abs_of_nonneg hm
      · rw [if_pos rfl, abs_neg, abs_of_nonneg hm]
    have hfits : |s| < 2 ^ 200 := by
      rw [habs]
      have hpower : (2 : ℚ) ^ (128 : ℤ) ≤ 2 ^ 200 := by norm_num
      linarith
    have htiny : (2 : ℚ) ^ (-1075 : ℤ) ≤ 1 / 2 / 2 ^ 53 :=
      (zpow_le_zpow_right₀ (by norm_num) (by norm_num : (-1075 : ℤ) ≤ -54)).trans (by norm_num)
    have hround := Binary64.abs_round_sub_le s
    rw [habs] at hround
    have hoff : |Binary64.round s - s| ≤ (m.value + 1) / 2 ^ 53 := by
      calc |Binary64.round s - s| ≤ q / 2 ^ 53 + 2 ^ (-1075 : ℤ) := hround
        _ ≤ (m.value + 1 / 2) / 2 ^ 53 + 1 / 2 / 2 ^ 53 := by gcongr
        _ = (m.value + 1) / 2 ^ 53 := by ring
    rw [hvalue]
    refine ⟨Binary64.round s, ofRat_of_abs_lt hfits, ?_, ?_, by linarith⟩
    · calc |Binary64.round s - (F32.finite negative m).toRat|
          ≤ |Binary64.round s - s| + |s - (F32.finite negative m).toRat| := abs_sub_le _ _ _
        _ ≤ 1 / (2 * 10 ^ count) + (m.value + 1) / 2 ^ 53 := by
          rw [hsign]
          linarith
    · have hsplit : |Binary64.round s| ≤ |Binary64.round s - s| + |s| := by
        simpa using abs_add_le (Binary64.round s - s) s
      have hpart : (m.value + 1) / 2 ^ 53 ≤ m.value + 1 / 2 := by
        rw [div_le_iff₀ (by positivity)]
        linarith
      linarith

/-- **A sum of two numbers is off by what they are off**, and by the host's own rounding. -/
theorem add_near {x y p w δ ε : ℚ} (hp : |p - x| ≤ δ) (hw : |w - y| ≤ ε)
    (hpx : |p| ≤ 2 * |x| + 1) (hwy : |w| ≤ 2 * |y| + 1) (hx : |x| < 2 ^ (128 : ℤ))
    (hy : |y| < 2 ^ (128 : ℤ)) :
    ∃ v, (finite p).add (finite w) = finite v
      ∧ |v - (x + y)| ≤ δ + ε + (2 * |x| + 2 * |y| + 3) / 2 ^ 53 := by
  have hsum : |p + w| ≤ 2 * |x| + 2 * |y| + 2 := (abs_add_le p w).trans (by linarith)
  have hfits : |p + w| < 2 ^ 200 := by
    have hpower : (4 : ℚ) * 2 ^ (128 : ℤ) + 2 ≤ 2 ^ 200 := by norm_num
    linarith
  have htiny : (2 : ℚ) ^ (-1075 : ℤ) ≤ 1 / 2 ^ 53 :=
    (zpow_le_zpow_right₀ (by norm_num) (by norm_num : (-1075 : ℤ) ≤ -53)).trans (by norm_num)
  have hoff : |Binary64.round (p + w) - (p + w)| ≤ (2 * |x| + 2 * |y| + 3) / 2 ^ 53 := by
    calc |Binary64.round (p + w) - (p + w)|
        ≤ |p + w| / 2 ^ 53 + 2 ^ (-1075 : ℤ) := Binary64.abs_round_sub_le _
      _ ≤ (2 * |x| + 2 * |y| + 2) / 2 ^ 53 + 1 / 2 ^ 53 := by gcongr
      _ = (2 * |x| + 2 * |y| + 3) / 2 ^ 53 := by ring
  refine ⟨Binary64.round (p + w), ofRat_of_abs_lt hfits, ?_⟩
  calc |Binary64.round (p + w) - (x + y)|
      = |(Binary64.round (p + w) - (p + w)) + (p - x) + (w - y)| := by ring_nf
    _ ≤ |Binary64.round (p + w) - (p + w)| + |p - x| + |w - y| := abs_add_three _ _ _
    _ ≤ δ + ε + (2 * |x| + 2 * |y| + 3) / 2 ^ 53 := by linarith

end F64

namespace Galdr.Telemetry

open Text Host Status

/-! ## The positions of a snapshot -/

/-- One number for each axis, as a host holds them. -/
def axesList (values : Axes ℚ) : List F64 :=
  [.finite (values xAxis), .finite (values yAxis), .finite (values zAxis), .finite (values aAxis)]

/-- The position of the machine. -/
def machineMm (snap : MachineSnapshot) : Axes ℚ := fun axis => (snap.mposMm axis).toRat

/-- The position of the work: what is left of the machine's without the offset. -/
def workMm (snap : MachineSnapshot) : Axes ℚ :=
  fun axis => (snap.mposMm axis).toRat - (snap.wcoMm axis).toRat

/-- The position of a kind. -/
def positionMm (snap : MachineSnapshot) : PositionReport → Axes ℚ
  | .machine => machineMm snap
  | .work => workMm snap

/-- The rounding of the numbers a shown position is made from: of one if it was reported, and of
two if it was not. -/
def printedRounding (reported shown : PositionReport) : ℚ :=
  if shown = reported then 1 / 2000 else 1 / 1000

theorem printedRounding_self (kind : PositionReport) : printedRounding kind kind = 1 / 2000 :=
  if_pos rfl

theorem printedRounding_of_ne {reported shown : PositionReport} (h : shown ≠ reported) :
    printedRounding reported shown = 1 / 1000 := if_neg h

/-- How far the firmware's own number for the reported position is off. -/
def differenceError (snap : MachineSnapshot) (axis : Fin 4) : ℚ :=
  |(snap.position axis).toRat - positionMm snap snap.positionReport axis|

/-- What the host's arithmetic adds. -/
def hostRounding (snap : MachineSnapshot) (axis : Fin 4) : ℚ :=
  (|(snap.position axis).toRat| + |(snap.wcoMm axis).toRat| + 2) / 2 ^ 51

/-- The numbers that a report is made from are finite. -/
def FiniteSnapshot (snap : MachineSnapshot) : Prop :=
  ∀ axis, (snap.mposMm axis).isFinite = true ∧ (snap.wcoMm axis).isFinite = true
    ∧ (snap.position axis).isFinite = true

/-- A position is shown up to a tolerance for each axis. -/
def Near (shown exact : Axes ℚ) (tolerance : Fin 4 → ℚ) : Prop :=
  ∀ axis, |shown axis - exact axis| ≤ tolerance axis

/-- **The positions that a view shows are those of a snapshot**, up to the rounding of the printed
numbers, that of the firmware's difference and that of the host's arithmetic. -/
def Shows (view : ViewState) (snap : MachineSnapshot) : Prop :=
  ∃ machine work : Axes ℚ, view.dro = (some (axesList machine), some (axesList work))
    ∧ Near machine (machineMm snap) (fun axis => printedRounding snap.positionReport .machine
      + differenceError snap axis + hostRounding snap axis)
    ∧ Near work (workMm snap) (fun axis => printedRounding snap.positionReport .work
      + differenceError snap axis + hostRounding snap axis)

/-- Finite numbers are read as finite ones. -/
theorem exists_printedAxes {values : Axes F32} (h : ∀ axis, (values axis).isFinite = true) :
    ∃ read : Axes ℚ, printedAxes values = axesList read
      ∧ ∀ axis, |read axis - (values axis).toRat|
          ≤ 1 / 2000 + (|(values axis).toRat| + 1) / 2 ^ 53
        ∧ |read axis| ≤ 2 * |(values axis).toRat| + 1
        ∧ |(values axis).toRat| < 2 ^ (128 : ℤ) := by
  choose read hread using fun axis => F64.printed_near 3 (h axis)
  refine ⟨read, ?_, fun axis => ?_⟩
  · unfold printedAxes axesList
    rw [(hread xAxis).1, (hread yAxis).1, (hread zAxis).1, (hread aAxis).1]
  · obtain ⟨-, hnear, hbound, hlarge⟩ := hread axis
    exact ⟨hnear.trans (by norm_num), hbound, hlarge⟩

/-- The other position, for every axis. -/
theorem exists_zipWith {op : F64 → F64 → F64} {a b : Axes ℚ} {property : Fin 4 → ℚ → Prop}
    (h : ∀ axis, ∃ v, op (.finite (a axis)) (.finite (b axis)) = .finite v ∧ property axis v) :
    ∃ other : Axes ℚ, List.zipWith op (axesList a) (axesList b) = axesList other
      ∧ ∀ axis, property axis (other axis) := by
  choose other hother using h
  refine ⟨other, ?_, fun axis => (hother axis).2⟩
  unfold axesList
  simp only [List.zipWith_cons_cons, List.zipWith_nil_left, (hother _).1]

/-- **A view that remembers the offset of its last report shows the positions of it.** -/
theorem shows_of_lastWco {view : ViewState} {snap : MachineSnapshot} {status : StatusReport}
    (hfinite : FiniteSnapshot snap) (hstatus : view.status = some status)
    (hreport : status.positionKind = positionKind snap.positionReport)
    (hposition : status.position = printedAxes snap.position)
    (hwco : view.lastWco = printedAxes snap.wcoMm) : Shows view snap := by
  obtain ⟨shown, hshown, hnear⟩ := exists_printedAxes fun axis => (hfinite axis).2.2
  obtain ⟨offset, hoffset, hoff⟩ := exists_printedAxes fun axis => (hfinite axis).2.1
  rw [hshown] at hposition
  rw [hoffset] at hwco
  have hslack : ∀ axis, (|(snap.position axis).toRat| + 1) / 2 ^ 53 ≤ hostRounding snap axis := by
    intro axis
    have hx := abs_nonneg (snap.position axis).toRat
    have hy := abs_nonneg (snap.wcoMm axis).toRat
    unfold hostRounding
    rw [div_le_div_iff₀ (by positivity) (by positivity)]
    norm_num
    linarith
  have hslackTwo : ∀ axis, 1 / 2000 + (|(snap.position axis).toRat| + 1) / 2 ^ 53
      + (1 / 2000 + (|(snap.wcoMm axis).toRat| + 1) / 2 ^ 53)
      + (2 * |(snap.position axis).toRat| + 2 * |(snap.wcoMm axis).toRat| + 3) / 2 ^ 53
      ≤ 1 / 1000 + hostRounding snap axis := by
    intro axis
    have hx := abs_nonneg (snap.position axis).toRat
    have hy := abs_nonneg (snap.wcoMm axis).toRat
    unfold hostRounding
    norm_num
    linarith
  have hreported : ∀ axis, |shown axis - positionMm snap snap.positionReport axis|
      ≤ 1 / 2000 + differenceError snap axis + hostRounding snap axis := by
    intro axis
    have hsplit := abs_sub_le (shown axis) (snap.position axis).toRat
      (positionMm snap snap.positionReport axis)
    have := (hnear axis).1
    have := hslack axis
    unfold differenceError
    linarith
  have hnonneg : ∀ axis, 0 ≤ differenceError snap axis := fun axis => abs_nonneg _
  have hlists : ¬(axesList offset = [] ∨ (axesList offset).length ≠ (axesList shown).length) := by
    simp [axesList]
  have hderive : view.deriveOtherPosition status
      = some (List.zipWith (fun p wco =>
        match positionKind snap.positionReport with
        | .machine => p.sub wco
        | .work => p.add wco) (axesList shown) (axesList offset)) := by
    unfold ViewState.deriveOtherPosition
    rw [hwco, hposition, hreport, if_neg hlists]
  cases hkind : snap.positionReport with
  | machine =>
    have hexact : ∀ axis, (snap.position axis).toRat = (snap.mposMm axis).toRat := by
      intro axis
      unfold MachineSnapshot.position
      rw [hkind]
    obtain ⟨other, hother, hwork⟩ := @exists_zipWith F64.sub shown offset (fun axis v =>
        |v - workMm snap axis|
          ≤ 1 / 1000 + differenceError snap axis + hostRounding snap axis) fun axis => by
        obtain ⟨hp, hpx, hx⟩ := hnear axis
        obtain ⟨hw, hwy, hy⟩ := hoff axis
        rw [abs_sub_comm, ← neg_sub_neg] at hw
        rw [← abs_neg (offset axis), ← abs_neg (snap.wcoMm axis).toRat] at hwy
        rw [← abs_neg] at hy
        obtain ⟨v, hv, hnearv⟩ := F64.add_near hp hw hpx hwy hx hy
        refine ⟨v, hv, ?_⟩
        have hslackv := hslackTwo axis
        have herror := hnonneg axis
        rw [abs_neg, ← sub_eq_add_neg] at hnearv
        unfold workMm
        rw [← hexact axis]
        linarith
    refine ⟨shown, other, ?_, fun axis => ?_, fun axis => ?_⟩
    · rw [ViewState.dro_machine hstatus (hreport.trans (by rw [hkind]; rfl)), hderive, hposition,
        hkind]
      show (some (axesList shown), some (List.zipWith F64.sub _ _)) = _
      rw [hother]
    · have hnear := hreported axis
      dsimp only
      rw [hkind] at hnear ⊢
      rwa [printedRounding_self]
    · dsimp only
      rw [hkind, printedRounding_of_ne (by decide)]
      exact hwork axis
  | work =>
    obtain ⟨other, hother, hmachine⟩ := @exists_zipWith F64.add shown offset (fun axis v =>
        |v - machineMm snap axis|
          ≤ 1 / 1000 + differenceError snap axis + hostRounding snap axis) fun axis => by
        obtain ⟨hp, hpx, hx⟩ := hnear axis
        obtain ⟨hw, hwy, hy⟩ := hoff axis
        obtain ⟨v, hv, hnearv⟩ := F64.add_near hp hw hpx hwy hx hy
        refine ⟨v, hv, ?_⟩
        have hslackv := hslackTwo axis
        have hsplit := abs_sub_le v ((snap.position axis).toRat + (snap.wcoMm axis).toRat)
          (machineMm snap axis)
        have herror : |(snap.position axis).toRat + (snap.wcoMm axis).toRat - machineMm snap axis|
            = differenceError snap axis := by
          unfold differenceError
          rw [hkind]
          unfold positionMm workMm machineMm
          congr 1
          ring
        linarith
    refine ⟨other, shown, ?_, fun axis => ?_, fun axis => ?_⟩
    · rw [ViewState.dro_work hstatus (hreport.trans (by rw [hkind]; rfl)), hderive, hposition,
        hkind]
      show (some (List.zipWith F64.add _ _), some (axesList shown)) = _
      rw [hother]
    · dsimp only
      rw [hkind, printedRounding_of_ne (by decide)]
      exact hmachine axis
    · have hnear := hreported axis
      dsimp only
      rw [hkind] at hnear ⊢
      rwa [printedRounding_self]

/-! ## Runs of a link -/

namespace Link

/-- **In a run whose reports fit, a host that was told an offset shows the positions** of the
snapshot that was reported last. -/
theorem shows_run {capacity : ℕ} {reporter : RefreshReporter (Axes F32)} {events : List Event}
    {snap : MachineSnapshot} (hfits : Runs.Allowed (step capacity) (Fits capacity)
      ⟨reporter, .new⟩ (events ++ [.report snap])) (hfinite : FiniteSnapshot snap) :
    let s := (events ++ [Event.report snap]).foldl (step capacity) ⟨reporter, .new⟩
    s.view.lastWco ≠ [] → Shows s.view snap := by
  obtain ⟨hrun, hlast, -⟩ := (Runs.allowed_append _ _ _).1 hfits
  have hremembers : Remembers (events.foldl (step capacity) ⟨reporter, .new⟩) :=
    hrun.invariant (fun s event h hop => Remembers.step h event hop) fun _ hne => absurd rfl hne
  dsimp only
  rw [List.foldl_append]
  generalize hs : events.foldl (step capacity) ⟨reporter, .new⟩ = s at hlast hremembers
  intro hne
  refine @shows_of_lastWco _ _ (reported (s.decided snap)) hfinite ?_ rfl rfl
    (hremembers.report hlast hne)
  rw [List.foldl_cons, List.foldl_nil, step_report hlast]
  unfold ViewState.onResponse
  dsimp only
  rw [parseStatus_body]

end Link

/-- **The host reads a report as it was printed, and shows the positions of the machine.** Every
report that fits is read as what it says of its snapshot, its numbers off by a half of their last
decimal; and in every run whose reports fit, whatever the reporter was before, a host that was told
an offset shows the positions of the last snapshot, up to the rounding of the printed numbers, of
the firmware's difference and of the host's arithmetic. -/
theorem reports_agree :
    (∀ capacity snap text, statusReport capacity snap = some text →
      ∃ body, text = '<' :: (body ++ ['>']) ++ ['\r', '\n']
        ∧ parseLine ('<' :: (body ++ ['>'])) = some (.status body)
        ∧ parseStatus body = reported snap
        ∧ peekRunState body = (parseStatus body).machineState.state)
    ∧ (∀ count (x : F32), x.isFinite = true → ∃ v, F64.printed count x = .finite v
      ∧ |v - x.toRat| ≤ 1 / (2 * 10 ^ count) + (|x.toRat| + 1) / 2 ^ 53)
    ∧ ∀ capacity reporter events snap, Runs.Allowed (Link.step capacity) (Link.Fits capacity)
        ⟨reporter, .new⟩ (events ++ [Link.Event.report snap]) → FiniteSnapshot snap →
      let s := (events ++ [Link.Event.report snap]).foldl (Link.step capacity) ⟨reporter, .new⟩
      s.view.lastWco ≠ [] → Shows s.view snap := by
  refine ⟨fun capacity snap text h => ?_, fun count x hx => ?_,
    fun _ _ _ _ hfits hfinite => Link.shows_run hfits hfinite⟩
  · rw [statusReport_eq, flatten_writes] at h
    obtain rfl := Option.some.inj (Option.ite_none_right_eq_some.1 h).2
    refine ⟨Status.body snap, ?_, parseLine_status _, parseStatus_body snap, peekRunState_eq _⟩
    show '<' :: (Status.body snap ++ ['>', '\r', '\n']) = _
    simp
  · obtain ⟨v, hv, hnear, -⟩ := F64.printed_near count hx
    exact ⟨v, hv, hnear⟩

/-! ## A machine far from its work -/

/-- One millimetre. -/
def one : F32 :=
  .finite false ⟨1, by simpa using Binary32.representable_natCast (n := 1) (by norm_num)⟩

theorem representable_far : Binary32.Representable 33554432 :=
  ⟨1, by norm_num, 25, by norm_num, by norm_num, by norm_num⟩

/-- As far as single precision counts by four millimetres. -/
def far (negative : Bool) : F32 := .finite negative ⟨33554432, representable_far⟩

theorem round_far : Binary32.round 33554431 = 33554432 := by
  have hlog : Int.log 2 (33554431 : ℚ) = 24 := by
    have hcast : (33554431 : ℚ) = (33554431 : ℕ) := by norm_num
    have hnat : Nat.log 2 33554431 = 24 :=
      Nat.log_eq_of_pow_le_of_lt_pow (by norm_num) (by norm_num)
    rw [hcast, Int.log_natCast, hnat]
    rfl
  have hexp : Binary32.exponent 33554431 = 1 := by
    unfold Binary32.exponent
    rw [hlog]
    decide
  have hhalf : Binary32.halfEven (33554431 / 2 ^ (1 : ℤ)) = 16777216 := by
    refine Binary32.halfEven_eq (.inr ⟨?_, by decide⟩)
    norm_num [abs_of_neg]
  unfold Binary32.round
  rw [hexp, hhalf]
  norm_num

/-- A millimetre is lost so far away. -/
theorem one_sub_far : one.sub (far false) = far true := by
  have hd : one.toRat - (far false).toRat = -33554431 := by
    show (1 : ℚ) - 33554432 = -33554431
    norm_num
  have habs : Rat.nnabs (-33554431) = 33554431 := by
    ext
    simp
  have hround : Binary32.round ((33554431 : NNRat) : ℚ) = 33554432 := by
    rw [← round_far]
    norm_num
  show (if one.toRat - (far false).toRat = 0 then _ else
    F32.ofRat (decide (one.toRat - (far false).toRat < 0))
      (Rat.nnabs (one.toRat - (far false).toRat))) = _
  rw [hd, habs, if_neg (by norm_num), decide_eq_true (by norm_num)]
  unfold F32.ofRat far
  rw [dif_pos (by rw [hround]; norm_num)]
  congr 1
  exact Binary32.Magnitude.ext_value hround

theorem printed_far (negative : Bool) :
    F64.printed 3 (far negative) = .finite (if negative then -33554432 else 33554432) := by
  have hscaled : F32.scaled 3 ⟨33554432, representable_far⟩ = 33554432000 := by
    have hwhole : (33554432 : ℚ) * 10 ^ 3 = (33554432000 : ℤ) := by norm_num
    unfold F32.scaled
    dsimp only
    rw [hwhole, Binary32.halfEven_intCast]
    rfl
  have hplus := F64.ofRat_intCast (n := 33554432) (by norm_num)
  have hminus := F64.ofRat_intCast (n := -33554432) (by norm_num)
  unfold far
  rw [F64.printed_finite, hscaled]
  cases negative
  · norm_num at hplus ⊢
    exact hplus
  · norm_num at hminus ⊢
    exact hminus

/-- A machine at rest at a position, reported as the work's, with an offset. -/
def resting (mpos wco : F32) : MachineSnapshot where
  state := .idle
  mposMm := fun _ => mpos
  wcoMm := fun _ => wco
  positionReport := .work
  includeWco := true
  feedMmMin := .zero
  spindleRpm := 0
  plannerBlocksFree := 16
  rxBytesFree := 255
  pins := ⟨false, fun _ => false, false, false, false, false⟩
  overrides := ⟨100, 100, 100⟩
  includeOv := true

/-- The reporter after a reset. -/
def freshReporter : RefreshReporter (Axes F32) := .new fun _ => .zero

theorem fits_far :
    Link.Fits 160 ⟨freshReporter, .new⟩ (.report (resting one (far false))) := by
  have hposition : (resting one (far false)).position = fun _ => far true :=
    funext fun _ => one_sub_far
  refine ⟨_, (statusReport_eq _ _).trans (if_pos ?_)⟩
  show (writes (resting one (far false))).flatten.length ≤ 160
  unfold writes
  rw [hposition]
  decide +kernel

theorem finite_far : FiniteSnapshot (resting one (far false)) := fun _ =>
  ⟨rfl, rfl, by
    show (one.sub (far false)).isFinite = true
    rw [one_sub_far]
    rfl⟩

/-- What the view holds after that report. -/
theorem view_far : (Link.step 160 ⟨freshReporter, .new⟩ (.report (resting one (far false)))).view
    = ⟨some (reported (resting one (far false))), axesList fun _ => 33554432, some (100, 100, 100),
      []⟩ := by
  have hwco : printedAxes (fun _ => far false) = axesList fun _ => 33554432 := by
    unfold printedAxes axesList
    rw [printed_far]
    rfl
  rw [Link.step_report fits_far]
  unfold ViewState.onResponse
  dsimp only
  rw [parseStatus_body, ← hwco]
  rfl

theorem lastWco_far :
    (([] ++ [Link.Event.report (resting one (far false))]).foldl (Link.step 160)
      ⟨freshReporter, .new⟩).view.lastWco ≠ [] := by
  show (Link.step 160 ⟨freshReporter, .new⟩ (.report (resting one (far false)))).view.lastWco ≠ []
  rw [view_far]
  exact List.cons_ne_nil _ _

/-- The host is told and shows the positions up to the millimetre that was lost. -/
theorem reports_agree_far :
    Shows (([] ++ [Link.Event.report (resting one (far false))]).foldl (Link.step 160)
      ⟨freshReporter, .new⟩).view (resting one (far false)) :=
  reports_agree.2.2 160 freshReporter [] (resting one (far false)) ⟨fits_far, trivial⟩ finite_far
    lastWco_far

/-- **Work positions are printed after a difference in single precision**, and what that loses is
no rounding of a printed number: the host shows the machine at its zero. -/
theorem not_reports_agree :
    ¬∀ capacity reporter events snap, Runs.Allowed (Link.step capacity) (Link.Fits capacity)
        ⟨reporter, .new⟩ (events ++ [Link.Event.report snap]) → FiniteSnapshot snap →
      let s := (events ++ [Link.Event.report snap]).foldl (Link.step capacity) ⟨reporter, .new⟩
      s.view.lastWco ≠ [] → ∃ machine work : Axes ℚ,
        s.view.dro = (some (axesList machine), some (axesList work))
          ∧ Near machine (machineMm snap) (fun _ => 1 / 1000)
          ∧ Near work (workMm snap) (fun _ => 1 / 1000) := by
  intro h
  obtain ⟨machine, work, hdro, hmachine, -⟩ :=
    h 160 freshReporter [] (resting one (far false)) ⟨fits_far, trivial⟩ finite_far lastWco_far
  have hposition : (reported (resting one (far false))).position
      = axesList fun _ => -33554432 := by
    show printedAxes (fun _ => one.sub (far false)) = _
    unfold printedAxes axesList
    rw [one_sub_far, printed_far]
    rfl
  have hzero : F64.add (.finite (-33554432)) (.finite 33554432) = .finite 0 := by
    have hsum := F64.ofRat_intCast (n := 0) (by norm_num)
    show F64.ofRat (-33554432 + 33554432) = _
    norm_num at hsum ⊢
    exact hsum
  have hshown : (Link.step 160 ⟨freshReporter, .new⟩
      (.report (resting one (far false)))).view.dro.1 = some (axesList fun _ => 0) := by
    rw [view_far, ViewState.dro_work rfl rfl]
    unfold ViewState.deriveOtherPosition
    dsimp only
    rw [hposition, if_neg (by simp [axesList])]
    show some (List.zipWith F64.add _ _) = _
    unfold axesList
    simp only [List.zipWith_cons_cons, List.zipWith_nil_left, hzero]
  have hfirst : axesList machine = axesList fun _ => 0 :=
    Option.some.inj ((congrArg Prod.fst hdro).symm.trans hshown)
  have hvalue : machine 0 = 0 := by
    unfold axesList at hfirst
    exact F64.finite.inj (List.cons.inj hfirst).1
  have hnear := hmachine 0
  have hone : machineMm (resting one (far false)) 0 = 1 := rfl
  rw [hvalue, hone] at hnear
  norm_num at hnear

end Galdr.Telemetry
