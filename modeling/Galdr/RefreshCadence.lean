import Mathlib

/-!
# When a report carries an element

Some elements of a status report are printed only now and then: when the value is another one
than was printed last, in the first report after a reset, and at least in every tenth. A host
remembers what it was told last, and what it remembers is the value of every report, printed
or not (`stays_fresh`). The values are compared by a comparison of their own, which need not
be an equality: not a number is unlike itself, and is printed every time.
-/

namespace Galdr.Status

/-- The comparison of a type, by which two values are alike. -/
class PartialEq (T : Type) where
  /-- The values are alike. -/
  eq : T → T → Bool

/-- The number of reports of which at least one carries the element. -/
def refreshPeriod : ℕ := 10

/-- What decides whether a report carries the element. -/
structure RefreshReporter (T : Type) where
  /-- The value that was reported last. -/
  lastReported : T
  /-- The reports since. -/
  sinceRefresh : ℕ
  /-- The next report is the first one. -/
  forceFirst : Bool

namespace RefreshReporter

variable {T : Type} [PartialEq T]

omit [PartialEq T] in
/-- A reporter before its first report. -/
def new (baseline : T) : RefreshReporter T := ⟨baseline, 0, true⟩

/-- The report that is made now carries the element: it is the first, the value changed, or the
period is over. The counter stops at the greatest number of 16 bits. -/
def shouldInclude (r : RefreshReporter T) (current : T) : Bool × RefreshReporter T :=
  let changed := !PartialEq.eq current r.lastReported
  let periodic : Bool := refreshPeriod - 1 ≤ r.sinceRefresh
  if r.forceFirst || changed || periodic then (true, ⟨current, 0, false⟩)
  else (false, { r with sinceRefresh := min (r.sinceRefresh + 1) 65535 })

/-- **What a report does**: it carries the value and starts the period again, or it does not
carry it, and then it is not the first, the value is like the one reported last, and the period
is not over. -/
theorem shouldInclude_cases (r : RefreshReporter T) (current : T) :
    r.shouldInclude current = (true, ⟨current, 0, false⟩)
      ∨ (r.forceFirst = false ∧ PartialEq.eq current r.lastReported = true
        ∧ r.sinceRefresh + 1 < refreshPeriod
        ∧ r.shouldInclude current = (false, { r with sinceRefresh := r.sinceRefresh + 1 })) := by
  unfold shouldInclude
  dsimp only
  split
  next => exact .inl rfl
  next hquiet =>
    simp only [Bool.or_eq_true, Bool.not_eq_true', decide_eq_true_eq, not_or,
      Bool.not_eq_false, Bool.not_eq_true] at hquiet
    obtain ⟨⟨hfirst, hlike⟩, hperiod⟩ := hquiet
    have hshort : r.sinceRefresh + 1 < refreshPeriod := by
      unfold refreshPeriod at hperiod ⊢
      omega
    have hcount : min (r.sinceRefresh + 1) 65535 = r.sinceRefresh + 1 := by
      unfold refreshPeriod at hshort
      omega
    exact .inr ⟨hfirst, hlike, hshort, by rw [hcount]⟩

/-! ## What a host remembers -/

/-- What happens to a reporter. -/
inductive Event (T : Type)
  /-- A report is made of a value. -/
  | report (current : T)
  /-- The cadence starts again. -/
  | reset (baseline : T)

/-- A reporter, and the value that a host was told last. -/
structure Told (T : Type) where
  /-- The reporter. -/
  reporter : RefreshReporter T
  /-- The value in the last report that carried one. -/
  known : Option T

namespace Told

omit [PartialEq T] in
/-- Nothing was reported yet. -/
def start (baseline : T) : Told T := ⟨.new baseline, none⟩

/-- One event, and what the host is told by it. -/
def step (s : Told T) : Event T → Told T
  | .reset baseline => { s with reporter := .new baseline }
  | .report current =>
    ⟨(s.reporter.shouldInclude current).2,
      if (s.reporter.shouldInclude current).1 then some current else s.known⟩

theorem step_report (s : Told T) (current : T) :
    s.step (.report current)
      = ⟨(s.reporter.shouldInclude current).2,
        if (s.reporter.shouldInclude current).1 then some current else s.known⟩ := rfl

omit [PartialEq T] in
/-- After the first report the host was told what was reported last. -/
def Agrees (s : Told T) : Prop :=
  s.reporter.forceFirst = false → s.known = some s.reporter.lastReported

theorem Agrees.step {s : Told T} (h : s.Agrees) (event : Event T) : (s.step event).Agrees := by
  cases event with
  | reset baseline => exact fun hfirst => absurd hfirst Bool.true_eq_false.mp
  | report current =>
    rcases s.reporter.shouldInclude_cases current with hinclude | ⟨hfirst, -, -, homit⟩
    · rw [step_report, hinclude]
      exact fun _ => rfl
    · rw [step_report, homit]
      exact fun _ => h hfirst

theorem agrees_run (baseline : T) (events : List (Event T)) :
    (events.foldl step (start baseline)).Agrees := by
  have hrun : ∀ s : Told T, s.Agrees → (events.foldl step s).Agrees := by
    induction events with
    | nil => exact fun _ h => h
    | cons event events ih => exact fun s h => ih _ (h.step event)
  exact hrun _ fun hfirst => absurd hfirst Bool.true_eq_false.mp

/-- After a report the host knows the value: it was told it, or one like it. -/
theorem Agrees.known_report {s : Told T} (h : s.Agrees) (current : T) :
    ∃ known, (s.step (.report current)).known = some known
      ∧ (known = current
        ∨ ((s.reporter.shouldInclude current).1 = false ∧ s.known = some known
          ∧ PartialEq.eq current known = true)) := by
  rcases s.reporter.shouldInclude_cases current with hinclude | ⟨hfirst, hlike, -, homit⟩
  · refine ⟨current, ?_, .inl rfl⟩
    rw [step_report, hinclude]
    rfl
  · have hknown := h hfirst
    refine ⟨s.reporter.lastReported, ?_, .inr ⟨by rw [homit], hknown, hlike⟩⟩
    rw [step_report, homit]
    exact hknown

end Told

/-! ## How often a value is told -/

/-- Which reports carry the element, in their order. -/
def decisions : RefreshReporter T → List (Event T) → List Bool
  | _, [] => []
  | _, .reset baseline :: events => decisions (.new baseline) events
  | r, .report current :: events =>
    (r.shouldInclude current).1 :: decisions (r.shouldInclude current).2 events

omit [PartialEq T] in
/-- The number of reports of which one carries the element, from here on. -/
def due (r : RefreshReporter T) : ℕ :=
  if r.forceFirst then 1 else max 1 (refreshPeriod - r.sinceRefresh)

omit [PartialEq T] in
theorem one_le_due (r : RefreshReporter T) : 1 ≤ r.due := by
  unfold due
  split
  · exact le_rfl
  · exact le_max_left _ _

omit [PartialEq T] in
theorem due_le (r : RefreshReporter T) : r.due ≤ refreshPeriod := by
  unfold due refreshPeriod
  split <;> omega

theorem mem_take_due {r : RefreshReporter T} {events : List (Event T)}
    (h : r.due ≤ (r.decisions events).length) : true ∈ (r.decisions events).take r.due := by
  induction events generalizing r with
  | nil => exact absurd (r.one_le_due.trans h) (by simp [decisions])
  | cons event events ih =>
    cases event with
    | reset baseline =>
      have hone : (new baseline).due ≤ r.due := r.one_le_due
      exact List.take_subset_take_left _ hone (ih (r := .new baseline) (hone.trans h))
    | report current =>
      obtain ⟨rest, hrest⟩ := Nat.exists_eq_add_of_le' r.one_le_due
      rcases r.shouldInclude_cases current with hinclude | ⟨hfirst, -, hshort, homit⟩
      · rw [decisions, hinclude, hrest, List.take_succ_cons]
        exact List.mem_cons_self
      · have hdue : r.due = (r.shouldInclude current).2.due + 1 := by
          rw [homit]
          unfold due
          rw [if_neg (by simp [hfirst]), if_neg (by simp [hfirst])]
          dsimp only
          omega
        rw [decisions, hdue, List.length_cons, Nat.add_le_add_iff_right] at h
        rw [decisions, hdue, List.take_succ_cons]
        exact List.mem_cons_of_mem _ (ih h)

/-- The reports after some of them are the reports of a later reporter. -/
theorem exists_drop_decisions (n : ℕ) (r : RefreshReporter T) (events : List (Event T)) :
    ∃ (r' : RefreshReporter T) (events' : List (Event T)),
      (r.decisions events).drop n = r'.decisions events' := by
  induction events generalizing n r with
  | nil => exact ⟨r, [], List.drop_nil⟩
  | cons event events ih =>
    cases event with
    | reset baseline => exact ih n (.new baseline)
    | report current =>
      cases n with
      | zero => exact ⟨r, .report current :: events, rfl⟩
      | succ n => exact ih n (r.shouldInclude current).2

/-- **What is reported now and then stays fresh.** After every report of a run the host remembers
the value of the report, or one like it that it was told before; and of so many reports one after
another as the period has, one at least carries the value. -/
theorem stays_fresh (baseline : T) (events : List (Event T)) :
    (∀ current,
      let before := events.foldl Told.step (Told.start baseline)
      ∃ known, (before.step (.report current)).known = some known
        ∧ (known = current
          ∨ ((before.reporter.shouldInclude current).1 = false ∧ before.known = some known
            ∧ PartialEq.eq current known = true)))
      ∧ ∀ n, n + refreshPeriod ≤ ((new baseline).decisions events).length →
        true ∈ (((new baseline).decisions events).drop n).take refreshPeriod := by
  refine ⟨fun current => (Told.agrees_run baseline events).known_report current, fun n hn => ?_⟩
  obtain ⟨r, rest, hdrop⟩ := exists_drop_decisions n (new baseline) events
  have hlength : refreshPeriod ≤ (r.decisions rest).length := by
    rw [← hdrop, List.length_drop]
    omega
  rw [hdrop]
  exact List.take_subset_take_left _ r.due_le (mem_take_due (r.due_le.trans hlength))

end RefreshReporter

end Galdr.Status
