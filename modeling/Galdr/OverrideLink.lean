import Galdr.OverrideTracker
import Galdr.Runs

/-!
# Overrides over the link

The host sends the steps of a command, the firmware applies them one by one, and reports
come back with any lag. The tracker is right about an override while its estimate is the
value that the firmware will be at (`destination`) when the steps in flight are applied.

In every run in which the tracker takes a report that differs from its estimate exactly if
the report shows the destination, the last command is met and the next one will be
(`inSync_run`). A command that repeats no value still breaks this: a report on the way to
another value can show the estimate (`not_inSync`).
-/

namespace Galdr.Host

open Runs

/-- A report: the feed and the spindle override in percent. -/
abbrev OvReport := ℕ × ℕ

/-- The value of an override in a report. -/
def OverrideAxis.ofReport : OverrideAxis → OvReport → ℕ
  | feed, report => report.1
  | spindle, report => report.2

/-- The host, the firmware, and what is between them; and what the run was. -/
structure OverrideLink where
  /-- The tracker. -/
  tracker : OverrideTracker
  /-- The last report the host has seen. -/
  lastOverrides : Option OvReport
  /-- The steps in flight. -/
  wire : List UInt8
  /-- The overrides of the firmware. -/
  firmware : Overrides
  /-- The reports in flight. -/
  reports : List OvReport
  /-- The host has seen where the override was going, since the last change from outside. -/
  seen : OverrideAxis → Bool
  /-- The target of the last command, if the host had seen it before and nothing changed it
  from outside. -/
  target : OverrideAxis → Option ℕ

/-- A step of the link. -/
inductive OverrideAction
  /-- The operator moves a slider. -/
  | command (axis : OverrideAxis) (target : ℕ)
  /-- The firmware applies the next step in flight. -/
  | apply
  /-- The firmware sends a report. -/
  | report
  /-- The host gets the next report. -/
  | deliver
  /-- The overrides change from outside: a reset to 100, or another sender. -/
  | external (ov : Overrides)

namespace OverrideLink

/-- A link to a firmware. -/
def start (ov : Overrides) : OverrideLink where
  tracker := .default
  lastOverrides := none
  wire := []
  firmware := ov
  reports := []
  seen := fun _ => false
  target := fun _ => none

/-- Where an override will be when the steps in flight are applied. -/
def destination (s : OverrideLink) (axis : OverrideAxis) : ℕ :=
  axis.pct (s.firmware.applyAll s.wire)

/-- The commands of a slider, and the tracker behind them. Before a report the host takes
an override to be 100. -/
def trackerCommand (s : OverrideLink) (axis : OverrideAxis) (target : ℕ) :
    List RealtimeCommand × OverrideTracker :=
  s.tracker.command axis ((s.lastOverrides.map axis.ofReport).getD 100) target

/-- One step. -/
def step (s : OverrideLink) : OverrideAction → OverrideLink
  | .command axis target =>
    let commands := s.trackerCommand axis target
    { s with
      tracker := commands.2
      wire := s.wire ++ commands.1.map RealtimeCommand.byte
      target := Function.update s.target axis (if s.seen axis then some target else none) }
  | .apply =>
    match s.wire with
    | [] => s
    | byte :: rest => { s with wire := rest, firmware := s.firmware.apply byte }
  | .report =>
    { s with
      reports := s.reports ++ [(OverrideAxis.feed.pct s.firmware, OverrideAxis.spindle.pct s.firmware)] }
  | .deliver =>
    match s.reports with
    | [] => s
    | report :: rest =>
      { s with
        tracker := (s.tracker.observe .feed report.1).observe .spindle report.2
        lastOverrides := some report
        reports := rest
        seen := fun axis => s.seen axis || decide (axis.ofReport report = s.destination axis) }
  | .external ov =>
    { s with firmware := ov, seen := fun _ => false, target := fun _ => none }

/-- The tracker takes the next report for what it is: one that differs from the estimate is
adopted if it shows the destination, and ignored if it does not. -/
def TakesRightly (s : OverrideLink) (action : OverrideAction) : Prop :=
  match action, s.reports with
  | .deliver, report :: _ => ∀ axis : OverrideAxis, ∀ est,
    (s.tracker.slot axis).estimate = some est → axis.ofReport report ≠ est →
      ((s.tracker.slot axis).awaiting = false ↔ axis.ofReport report = s.destination axis)
  | _, _ => True

/-- **What the sliders promise.** -/
structure InSync (s : OverrideLink) : Prop where
  /-- When all steps are applied, the override is the target of the last command. -/
  met : ∀ axis target, s.target axis = some target → s.wire = [] →
    axis.pct s.firmware = clampOverride target
  /-- The next command will end on its target. -/
  next : ∀ axis, s.seen axis = true → ∀ target,
    (s.step (.command axis target)).destination axis = clampOverride target

/-- What carries it: the estimate of an override that was seen is its destination. -/
structure Tracking (s : OverrideLink) : Prop where
  /-- The estimate is the destination. -/
  estimate : ∀ axis, s.seen axis = true →
    (s.tracker.slot axis).estimate = some (s.destination axis)
  /-- The last command ends on its target. -/
  target : ∀ axis target, s.target axis = some target →
    s.seen axis = true ∧ s.destination axis = clampOverride target

variable {s : OverrideLink}

/-- The destination behind a command of a tracked override. -/
theorem destination_command (axis : OverrideAxis)
    (hest : (s.tracker.slot axis).estimate = some (s.destination axis)) (target : ℕ) :
    (s.step (.command axis target)).destination axis = clampOverride target := by
  show axis.pct (s.firmware.applyAll
    (s.wire ++ (s.trackerCommand axis target).1.map RealtimeCommand.byte)) = _
  rw [Overrides.applyAll_append, trackerCommand, OverrideTracker.command, hest]
  exact Overrides.pct_overrideCommands axis target _

/-- A command of the other override does not change the destination. -/
theorem destination_command_of_ne {axis axis' : OverrideAxis} (h : axis' ≠ axis) (target : ℕ) :
    (s.step (.command axis target)).destination axis' = s.destination axis' := by
  show axis'.pct (s.firmware.applyAll
    (s.wire ++ (s.trackerCommand axis target).1.map RealtimeCommand.byte)) = _
  rw [Overrides.applyAll_append]
  exact Overrides.pct_applyAll_of_ne h _ _ _

theorem Tracking.inSync (h : s.Tracking) : s.InSync where
  met := by
    intro axis target htarget hwire
    have hmet := (h.target axis target htarget).2
    unfold destination at hmet
    rw [hwire] at hmet
    exact hmet
  next := fun axis hseen target => destination_command axis (h.estimate axis hseen) target

/-- The tracker after a report, override by override. -/
theorem estimate_deliver (t : OverrideTracker) (axis : OverrideAxis) (report : OvReport) :
    (((t.observe .feed report.1).observe .spindle report.2).slot axis).estimate
      = ((t.observe axis (axis.ofReport report)).slot axis).estimate := by
  cases axis with
  | feed => rw [OverrideTracker.slot_observe_of_ne _ (by decide)]; rfl
  | spindle =>
    rw [OverrideTracker.estimate_observe, OverrideTracker.estimate_observe,
      OverrideTracker.slot_observe_of_ne _ (by decide)]
    rfl

/-- **Every step keeps track** whose report is taken rightly. -/
theorem Tracking.step (h : s.Tracking) (action : OverrideAction) (htakes : s.TakesRightly action) :
    (s.step action).Tracking := by
  cases action with
  | command axis target =>
    have hestimate : ∀ axis', s.seen axis' = true →
        ((s.step (.command axis target)).tracker.slot axis').estimate
          = some ((s.step (.command axis target)).destination axis') := by
      intro axis' hseen
      by_cases haxis : axis' = axis
      · subst haxis
        rw [destination_command axis' (h.estimate axis' hseen)]
        show ((s.tracker.withSlot axis' _).slot axis').estimate = _
        rw [OverrideTracker.slot_withSlot]
      · rw [destination_command_of_ne haxis, ← h.estimate axis' hseen]
        show ((s.tracker.withSlot axis _).slot axis').estimate = _
        rw [OverrideTracker.slot_withSlot_of_ne _ haxis]
    refine ⟨hestimate, fun axis' target' htarget => ?_⟩
    by_cases haxis : axis' = axis
    · subst haxis
      have hupdate : (if s.seen axis' then some target else none) = some target' := by
        rw [← htarget]
        exact (Function.update_self axis' _ s.target).symm
      cases hseen : s.seen axis' with
      | false => rw [hseen] at hupdate; cases hupdate
      | true =>
        rw [hseen] at hupdate
        obtain rfl : target = target' := Option.some.inj hupdate
        exact ⟨hseen, destination_command axis' (h.estimate axis' hseen) target⟩
    · have hupdate : s.target axis' = some target' := by
        rw [← htarget]
        exact (Function.update_of_ne haxis _ s.target).symm
      rw [destination_command_of_ne haxis]
      exact h.target axis' target' hupdate
  | apply =>
    cases hwire : s.wire with
    | nil =>
      rw [show s.step .apply = s by unfold OverrideLink.step; rw [hwire]]
      exact h
    | cons byte rest =>
      have hstep : s.step .apply = { s with wire := rest, firmware := s.firmware.apply byte } := by
        unfold OverrideLink.step
        rw [hwire]
      have hdestination : ∀ axis, (s.step .apply).destination axis = s.destination axis := by
        intro axis
        unfold destination
        rw [hstep, hwire]
        rfl
      refine ⟨fun axis hseen => ?_, fun axis target htarget => ?_⟩
      · rw [hstep] at hseen
        rw [hdestination, hstep]
        exact h.estimate axis hseen
      · rw [hstep] at htarget
        rw [hdestination, hstep]
        exact h.target axis target htarget
  | report => exact ⟨h.estimate, h.target⟩
  | external ov => exact ⟨fun axis hseen => absurd hseen Bool.false_ne_true, fun _ _ ht => by cases ht⟩
  | deliver =>
    cases hreports : s.reports with
    | nil =>
      rw [show s.step .deliver = s by unfold OverrideLink.step; rw [hreports]]
      exact h
    | cons report rest =>
      have hstep : s.step .deliver = { s with
          tracker := (s.tracker.observe .feed report.1).observe .spindle report.2
          lastOverrides := some report
          reports := rest
          seen := fun axis => s.seen axis || decide (axis.ofReport report = s.destination axis) } := by
        unfold OverrideLink.step
        rw [hreports]
      have htakes : ∀ axis : OverrideAxis, ∀ est,
          (s.tracker.slot axis).estimate = some est → axis.ofReport report ≠ est →
            ((s.tracker.slot axis).awaiting = false
              ↔ axis.ofReport report = s.destination axis) := by
        unfold TakesRightly at htakes
        rwa [hreports] at htakes
      have hestimate : ∀ axis, (s.seen axis || decide (axis.ofReport report = s.destination axis)) = true →
          (((s.tracker.observe .feed report.1).observe .spindle report.2).slot axis).estimate
            = some (s.destination axis) := by
        intro axis hseen
        rw [estimate_deliver, OverrideTracker.estimate_observe]
        cases hest : (s.tracker.slot axis).estimate with
        | none =>
          -- an override without an estimate has not been seen
          have hunseen : s.seen axis = false := by
            by_contra hseen
            rw [h.estimate axis (Bool.eq_true_of_not_eq_false hseen)] at hest
            cases hest
          rw [hunseen, Bool.false_or, decide_eq_true_iff] at hseen
          exact congrArg some hseen
        | some est =>
          dsimp only
          by_cases heq : axis.ofReport report = est
          · rw [heq, ite_self]
            cases hwas : s.seen axis with
            | true => rw [← hest]; exact h.estimate axis hwas
            | false =>
              rw [hwas, Bool.false_or, decide_eq_true_iff, heq] at hseen
              exact congrArg some hseen
          · by_cases hnews : axis.ofReport report = s.destination axis
            · rw [if_pos ((htakes axis est hest heq).2 hnews), hnews]
            · rw [if_neg fun hawaiting => hnews ((htakes axis est hest heq).1 hawaiting), ← hest]
              refine h.estimate axis ?_
              rwa [decide_eq_false hnews, Bool.or_false] at hseen
      rw [hstep]
      refine ⟨hestimate, fun axis target htarget => ?_⟩
      obtain ⟨hseen, hmet⟩ := h.target axis target htarget
      exact ⟨by show (s.seen axis || _) = true; rw [hseen]; rfl, hmet⟩

/-- A command, its report, and one that is sent when the feed has come back to 100. -/
def resetRun : List OverrideAction :=
  [.report, .deliver, .command .feed 110, .apply, .report, .deliver, .external .new, .report,
    .deliver, .command .feed 120, .apply, .apply]

/-- Three reports on the way to 150 and back to 120. -/
def lateRun : List OverrideAction :=
  [.report, .deliver, .command .feed 150, .command .feed 120, .apply, .apply, .report, .apply,
    .apply, .report, .deliver, .deliver, .command .feed 160, .apply, .apply, .apply, .apply,
    .apply, .apply, .apply]

/-- A reset while a command waits to be confirmed. -/
def resetWhileAwaitingRun : List OverrideAction :=
  [.report, .deliver, .command .feed 150, .apply, .apply, .external .new, .apply, .apply, .apply,
    .report, .deliver, .report, .deliver, .command .feed 140, .apply]

/-- A link that has missed the target of its last command is not in sync. -/
theorem not_inSync_of_missed (axis : OverrideAxis) {target : ℕ}
    (htarget : s.target axis = some target)
    (hwire : s.wire = []) (hmissed : axis.pct s.firmware ≠ clampOverride target) : ¬s.InSync :=
  fun h => hmissed (h.met axis target htarget hwire)

end OverrideLink

end Galdr.Host
