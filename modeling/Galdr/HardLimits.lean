import Galdr.HomingWalk

/-!
# The hard limits

The executor samples the limit pins in three places: a check, which raises the hard-limit alarm
for a switch that was released at the sample before, a seed of that sample, and a publication of
the levels for the status report. All three read four pins, though the rotary axis has no switch.

What they are to do is said by a watch of the three switches (`Watch`). The executor does it in
every run in which the pins are not inverted at a check, and the pin of the rotary axis reads as
released at a publication (`executor_agrees_iff`): the check leaves the pin of the rotary axis out
before it inverts the levels, and the publication does not leave it out at all.
-/

namespace Galdr.HardLimits

/-! ## The executor -/

/-- What a sample of the pins decides. -/
structure ArmedHardLimitDecision where
  /-- The switches that are triggered. -/
  triggered : Axes Bool
  /-- The alarm is to be raised. -/
  alarm : Bool
  /-- The switches that are known to be triggered from now on. -/
  nextArmed : Axes Bool

/-- Decide on the alarm: a switch is triggered that was not before, the limits are enabled and no
homing is in progress. -/
def hardLimitAlarmArmed (rawHigh : Axes Bool) (invert hardLimitsEnabled homingActive : Bool)
    (prevTriggered : Axes Bool) : ArmedHardLimitDecision :=
  let triggered : Axes Bool := fun axis => limitTriggered (rawHigh axis) invert
  let fresh := (List.finRange 4).any fun axis => triggered axis && !prevTriggered axis
  ⟨triggered, hardLimitsEnabled && !homingActive && fresh, triggered⟩

/-- The mask of the levels, a bit for each axis. -/
def packLimitMask (triggered : Axes Bool) : UInt8 :=
  (List.finRange 4).foldl
    (fun mask axis => if triggered axis then mask ||| (1 <<< UInt8.ofNat axis) else mask) 0

/-- The levels of a mask. -/
def limitLevels (mask : UInt8) : Axes Bool := fun axis =>
  mask &&& (1 <<< UInt8.ofNat axis) != 0

theorem limitLevels_packLimitMask (triggered : Axes Bool) :
    limitLevels (packLimitMask triggered) = triggered := by
  revert triggered
  decide +kernel

/-- The limit switches, as far as the executor keeps track of them. -/
structure Executor where
  /-- The switches that were triggered at the sample before. -/
  armed : Axes Bool
  /-- The mask that is published. -/
  levels : UInt8

/-- The levels of the switches that are triggered, to begin with. The rotary axis is left out. -/
def sampleLimitTriggered (pins : Axes Bool) (invert : Bool) : Axes Bool := fun axis =>
  axis != aAxis && limitTriggered (pins axis) invert

/-- The levels of the pins that are checked. The rotary axis reads as low. -/
def rawHigh (pins : Axes Bool) : Axes Bool := fun axis => axis != aAxis && pins axis

/-- What the executor does with the limit pins. -/
inductive LimitEvent
  /-- A seed, at power-on, after a reset and after a homing. -/
  | seed (pins : Axes Bool) (invert : Bool)
  /-- A check, at the end of a block and after an edge. -/
  | check (pins : Axes Bool) (invert hardLimitsEnabled homingActive : Bool)
  /-- A publication, while idle and after a homing. -/
  | publish (pins : Axes Bool) (invert : Bool)

namespace Executor

/-- The executor at power-on. -/
def start (pins : Axes Bool) (invert : Bool) : Executor := ⟨sampleLimitTriggered pins invert, 0⟩

/-- Check the pins, and publish what is found. -/
def checkHardLimits (x : Executor) (pins : Axes Bool)
    (invert hardLimitsEnabled homingActive : Bool) : Executor × Bool :=
  let decision :=
    hardLimitAlarmArmed (rawHigh pins) invert hardLimitsEnabled homingActive x.armed
  (⟨decision.nextArmed, packLimitMask decision.triggered⟩, decision.alarm)

/-- Publish the levels of the pins. -/
def publishLimitLevels (x : Executor) (pins : Axes Bool) (invert : Bool) : Executor :=
  { x with levels := packLimitMask fun axis => limitTriggered (pins axis) invert }

/-- An event, and whether it raises the alarm. -/
def step (x : Executor) : LimitEvent → Executor × Bool
  | .seed pins invert => ({ x with armed := sampleLimitTriggered pins invert }, false)
  | .check pins invert hardLimitsEnabled homingActive =>
    x.checkHardLimits pins invert hardLimitsEnabled homingActive
  | .publish pins invert => (x.publishLimitLevels pins invert, false)

/-- A run of events. -/
def run (x : Executor) (events : List LimitEvent) : Executor :=
  events.foldl (fun x e => (x.step e).1) x

end Executor

/-! ## The watch of the switches -/

/-- The three switches, as they are to be watched. The rotary axis has none. -/
structure Watch where
  /-- The switches that were triggered at the sample before. -/
  known : Axes Bool
  /-- The switches that the status report shows. -/
  shown : Axes Bool

namespace Watch

/-- The switches that are triggered. -/
def triggered (pins : Axes Bool) (invert : Bool) : Axes Bool := fun axis =>
  if axis = aAxis then false else limitTriggered (pins axis) invert

/-- The watch at power-on. -/
def start (pins : Axes Bool) (invert : Bool) : Watch := ⟨triggered pins invert, fun _ => false⟩

/-- An event, and whether the alarm is to be raised: the limits are enabled, no homing is in
progress, and a switch went from released to triggered. -/
def step (w : Watch) : LimitEvent → Watch × Bool
  | .seed pins invert => ({ w with known := triggered pins invert }, false)
  | .check pins invert hardLimitsEnabled homingActive =>
    (⟨triggered pins invert, triggered pins invert⟩, decide (hardLimitsEnabled = true ∧
      homingActive = false ∧ ∃ axis, w.known axis = false ∧ triggered pins invert axis = true))
  | .publish pins invert => ({ w with shown := triggered pins invert }, false)

/-- A run of events. -/
def run (w : Watch) (events : List LimitEvent) : Watch :=
  events.foldl (fun w e => (w.step e).1) w

end Watch

/-! ## The executor against the watch -/

/-- The executor knows and shows what the watch knows and shows. -/
structure Agrees (x : Executor) (w : Watch) : Prop where
  /-- The switches known. -/
  known : x.armed = w.known
  /-- The switches shown. -/
  shown : limitLevels x.levels = w.shown

/-- An event leaves the rotary axis out: the pins are not inverted at a check, and the pin of the
rotary axis reads as released at a publication. -/
def LimitEvent.LeavesOut : LimitEvent → Prop
  | .seed _ _ => True
  | .check _ invert _ _ => invert = false
  | .publish pins invert => limitTriggered (pins aAxis) invert = false

/-- The rotary axis is never part of a seed. -/
theorem sampleLimitTriggered_eq (pins : Axes Bool) (invert : Bool) :
    sampleLimitTriggered pins invert = Watch.triggered pins invert := by
  funext axis
  unfold sampleLimitTriggered Watch.triggered
  by_cases h : axis = aAxis <;> simp [h]

theorem agrees_start (pins : Axes Bool) (invert : Bool) :
    Agrees (.start pins invert) (.start pins invert) :=
  ⟨sampleLimitTriggered_eq pins invert,
    limitLevels_packLimitMask fun _ => false⟩

/-- What is shown leaves the rotary axis out. -/
theorem triggered_aAxis (pins : Axes Bool) (invert : Bool) :
    Watch.triggered pins invert aAxis = false := if_pos rfl

/-- The levels that are checked, when the pins are not inverted. -/
theorem limitTriggered_rawHigh (pins : Axes Bool) :
    (fun axis => limitTriggered (rawHigh pins axis) false) = Watch.triggered pins false := by
  funext axis
  unfold limitTriggered rawHigh Watch.triggered
  by_cases h : axis = aAxis <;> simp [h, limitTriggered]

/-- The levels that are published, when the pin of the rotary axis reads as released. -/
theorem limitTriggered_pins {pins : Axes Bool} {invert : Bool}
    (h : limitTriggered (pins aAxis) invert = false) :
    (fun axis => limitTriggered (pins axis) invert) = Watch.triggered pins invert := by
  funext axis
  unfold Watch.triggered
  by_cases haxis : axis = aAxis
  · rw [if_pos haxis, haxis, h]
  · rw [if_neg haxis]

/-- A check that is not inverted does what the watch does. -/
theorem check_agrees {x : Executor} {w : Watch} (h : Agrees x w) (pins : Axes Bool)
    (enabled homing : Bool) :
    (x.step (.check pins false enabled homing)).2 = (w.step (.check pins false enabled homing)).2 ∧
      Agrees (x.step (.check pins false enabled homing)).1
        (w.step (.check pins false enabled homing)).1 := by
  have htriggered := limitTriggered_rawHigh pins
  refine ⟨?_, htriggered, (limitLevels_packLimitMask _).trans htriggered⟩
  have hfresh : ((List.finRange 4).any fun axis =>
      limitTriggered (rawHigh pins axis) false && !x.armed axis) = true ↔
        ∃ axis, w.known axis = false ∧ Watch.triggered pins false axis = true := by
    simp [← htriggered, ← h.known, and_comm]
  refine Bool.eq_iff_iff.mpr ?_
  show (enabled && !homing && _) = true ↔ decide _ = true
  rw [Bool.and_eq_true, Bool.and_eq_true, hfresh, decide_eq_true_eq, Bool.not_eq_true', and_assoc]

/-- An event that leaves the rotary axis out, and no other, does what the watch does. -/
theorem step_agrees_iff {x : Executor} {w : Watch} (h : Agrees x w) (e : LimitEvent) :
    ((x.step e).2 = (w.step e).2 ∧ Agrees (x.step e).1 (w.step e).1) ↔ e.LeavesOut := by
  cases e with
  | seed pins invert =>
    exact iff_of_true ⟨rfl, sampleLimitTriggered_eq pins invert, h.shown⟩ trivial
  | check pins invert enabled homing =>
    constructor
    · rintro ⟨-, hagrees⟩
      have hshown := congrFun hagrees.shown aAxis
      have hrotary : limitTriggered (rawHigh pins aAxis) invert = false :=
        ((congrFun (limitLevels_packLimitMask
          fun axis => limitTriggered (rawHigh pins axis) invert) aAxis).symm.trans hshown).trans
            (triggered_aAxis pins invert)
      simpa [limitTriggered, rawHigh, LimitEvent.LeavesOut] using hrotary
    · rintro rfl
      exact check_agrees h pins enabled homing
  | publish pins invert =>
    constructor
    · rintro ⟨-, hagrees⟩
      have hshown := congrFun hagrees.shown aAxis
      exact ((congrFun (limitLevels_packLimitMask
        fun axis => limitTriggered (pins axis) invert) aAxis).symm.trans hshown).trans
          (triggered_aAxis pins invert)
    · intro hrotary
      exact ⟨rfl, h.known, (limitLevels_packLimitMask _).trans (limitTriggered_pins hrotary)⟩

/-- Every event of a run does what the watch does. -/
def Obeys (x : Executor) (w : Watch) : List LimitEvent → Prop
  | [] => True
  | e :: events => ((x.step e).2 = (w.step e).2 ∧ Agrees (x.step e).1 (w.step e).1) ∧
    Obeys (x.step e).1 (w.step e).1 events

theorem obeys_iff {x : Executor} {w : Watch} (h : Agrees x w) (events : List LimitEvent) :
    Obeys x w events ↔ ∀ e ∈ events, e.LeavesOut := by
  induction events generalizing x w with
  | nil => exact iff_of_true trivial (List.forall_mem_nil _)
  | cons e events ih =>
    rw [List.forall_mem_cons]
    unfold Obeys
    rw [step_agrees_iff h]
    exact and_congr_right fun hout => ih ((step_agrees_iff h e).mpr hout).2

/-- **The executor watches the three switches in every run in which no check is inverted and the
pin of the rotary axis reads as released whenever the levels are published**, and in no other
run: the alarm is raised for a switch that goes from released to triggered, and the levels that
are published are the ones that the alarm is decided on. -/
theorem executor_agrees_iff (pins : Axes Bool) (invert : Bool) (events : List LimitEvent) :
    Obeys (.start pins invert) (.start pins invert) events ↔ ∀ e ∈ events, e.LeavesOut :=
  obeys_iff (agrees_start pins invert) events

/-- Switches of which none is triggered, with the pins inverted: the pins of the three switches
are high. -/
def released : Axes Bool := fun axis => axis != aAxis

/-- The first check with inverted pins raises the alarm, though no switch is triggered. -/
theorem not_obeys :
    ¬∀ (pins : Axes Bool) (invert : Bool) (events : List LimitEvent),
      Obeys (.start pins invert) (.start pins invert) events := by
  intro hall
  have halarm := (hall released true [.check released true true false]).1.1
  exact absurd halarm (by decide)

end Galdr.HardLimits
