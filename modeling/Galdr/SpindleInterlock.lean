import Galdr.Spindle

/-!
# The spindle reversal interlock

A session is a controller with the calls its users make, each at a time: spindle
commands, the completions of reversals, and emergency stops. A completion is
**timely** when it comes no earlier than the controller asked for.

The output is interlocked for the reversal dwell through every timely session
whose starts are not **hurried**. A start is an `M3` or `M4` that finds the
controller stopped, or a completion. The controller remembers what it drove last
and not the direction the spindle last turned in, so that after an `M5`, an `S0`,
an emergency stop or the stop of a reversal it starts the other direction at
once.
-/

namespace Galdr

open Interlock Runs

variable {K : Type} [Field K] [LinearOrder K]

/-- The settings a session runs with: `$31`, `$30` and `$393`. -/
structure SpindleSettings (K : Type) where
  /-- `$31`. -/
  rpmMin : K
  /-- `$30`. -/
  rpmMax : K
  /-- `$393`. -/
  reverseDwellS : K

/-- **The reversal dwell**: `$393`, and never less than the floor. -/
def SpindleSettings.dwell (settings : SpindleSettings K) : K :=
  max settings.reverseDwellS minReverseDwellS

/-- One call into the controller. -/
inductive SpindleCall (K : Type)
  /-- `M3`, `M4` or `M5`, with a speed. -/
  | apply (state : SpindleState) (rpm : K)
  /-- The completion of a reversal. -/
  | completeReverse (state : SpindleState) (rpm : K)
  /-- An emergency stop. -/
  | emergencyStop

/-- A call, when it is made, and the writes that fail in it. -/
structure SpindleEvent (K : Type) where
  /-- When the call is made. -/
  time : K
  /-- The writes that fail in it. -/
  faults : Faults
  /-- The call. -/
  call : SpindleCall K

/-- A controller and what its callers know. -/
structure SpindleSession (K : Type) where
  /-- The controller. -/
  controller : SpindleController K
  /-- The time of the last call. -/
  clock : K
  /-- When the reversal asked for last may be completed. -/
  asked : Option K
  /-- No `M3` or `M4` has come since it was asked for. -/
  undisturbed : Bool

namespace SpindleSession

/-- A session begins at power-on. -/
def new : SpindleSession K where
  controller := .new
  clock := 0
  asked := none
  undisturbed := false

variable (settings : SpindleSettings K)

/-- One call. -/
def step (s : SpindleSession K) (ev : SpindleEvent K) : SpindleSession K :=
  match ev.call with
  | .apply state rpm =>
    let (c, r) := s.controller.apply ev.faults ev.time state rpm settings.rpmMin
      settings.rpmMax settings.reverseDwellS
    match r with
    | .ok (.spinDownThenReverse dwellS) => ⟨c, ev.time, some (ev.time + dwellS), true⟩
    | _ => ⟨c, ev.time, s.asked,
        s.undisturbed && decide (SpindleController.effective state rpm = .stop)⟩
  | .completeReverse state rpm =>
    let (c, _) := s.controller.completeReverse ev.faults ev.time state rpm settings.rpmMin
      settings.rpmMax
    ⟨c, ev.time, s.asked, s.undisturbed && decide (SpindleController.effective state rpm = .stop)⟩
  | .emergencyStop =>
    let (c, _) := s.controller.emergencyStop ev.faults ev.time
    ⟨c, ev.time, s.asked, s.undisturbed⟩

/-- Time does not go back, and a reversal is completed no earlier than the
controller asked for. -/
def Timely (s : SpindleSession K) (ev : SpindleEvent K) : Prop :=
  s.clock ≤ ev.time
    ∧ match ev.call with
      | .completeReverse _ _ => ∃ deadline, s.asked = some deadline ∧ deadline ≤ ev.time
      | _ => True

/-- The spindle may start in the direction of `state`: it never turned the other
way, or the output has been off for the dwell. -/
def Rested (s : SpindleSession K) (state : SpindleState) (now : K) : Prop :=
  (coast s.controller.levels).MayRun settings.dwell (SpindleController.dirLevel state) now

/-- **Not hurried**: an `M3` or `M4` that finds the controller stopped names the
direction the spindle last turned in, or comes when the output has been off for
the dwell; and so does a completion before which an `M3` or an `M4` has come since
its reversal was asked for. -/
def Unhurried (s : SpindleSession K) (ev : SpindleEvent K) : Prop :=
  match ev.call with
  | .apply state rpm =>
    SpindleController.effective state rpm ≠ .stop → s.controller.lastState = .stop →
      s.Rested settings state ev.time
  | .completeReverse state rpm =>
    SpindleController.effective state rpm ≠ .stop → s.undisturbed = false →
      s.Rested settings state ev.time
  | .emergencyStop => True

end SpindleSession

namespace SpindleController

/-! ## What one call writes -/

omit [Field K] [LinearOrder K] in
@[simp] theorem levels_write (c : SpindleController K) (now : K) (o : SpindleOutputs K) :
    (c.write now o).levels = c.levels ++ [(now, o.energised)] := by
  simp [levels, write]

omit [LinearOrder K] in
/-- **What a stop writes**: samples without a level. It stops the controller when
it succeeds, and leaves the state driven last when it fails. -/
theorem driveStop_spec (c : SpindleController K) (f : Faults) (now : K) :
    ∃ ss, (c.driveStop f now).1.levels = c.levels ++ ss
      ∧ (∀ s ∈ ss, s.1 = now ∧ s.2 = none)
      ∧ ((c.driveStop f now).2 = .ok () → ss ≠ []
          ∧ (c.driveStop f now).1.lastState = .stop)
      ∧ ((c.driveStop f now).2 ≠ .ok () →
          (c.driveStop f now).1.lastState = c.lastState) := by
  obtain ⟨pwm, enable, direction⟩ := f
  cases enable
  case true => exact ⟨[], by simp [driveStop], by simp, by simp [driveStop], fun _ => rfl⟩
  case false =>
    cases pwm
    case true =>
      refine ⟨[(now, none)], ?_, by simp, by simp [driveStop], fun _ => rfl⟩
      show (c.write now _).levels = _
      rw [levels_write]
      rfl
    case false =>
      refine ⟨[(now, none), (now, none)], ?_, by simp, fun _ => ⟨by simp, rfl⟩,
        by simp [driveStop]⟩
      show ((c.write now _).write now _).levels = _
      rw [levels_write, levels_write, List.append_assoc]
      rfl

/-- The level the outputs show while the direction is being set. -/
def turning (c : SpindleController K) (state : SpindleState) : Option Bool :=
  c.outputs.energised.map fun _ => dirLevel state

omit [Field K] [LinearOrder K] in
theorem energised_direction (o : SpindleOutputs K) (duty : K) (level : Bool) :
    SpindleOutputs.energised ⟨duty, o.enable, level⟩ = o.energised.map fun _ => level := by
  unfold SpindleOutputs.energised
  by_cases h : o.enable = enableRun
  · rw [if_pos h, if_pos h]
    rfl
  · rw [if_neg h, if_neg h]
    rfl

omit [Field K] [LinearOrder K] in
/-- **What a run writes**: samples that keep the outputs as they are but for the
direction, and when it succeeds a last one with the direction's level. -/
theorem driveRun_spec (c : SpindleController K) (f : Faults) (now : K)
    (state : SpindleState) (duty : K) :
    ∃ ss, (∀ s ∈ ss, s = (now, c.turning state))
      ∧ ((c.driveRun f now state duty).2 = .ok () →
          (c.driveRun f now state duty).1.levels
              = c.levels ++ (ss ++ [(now, some (dirLevel state))])
            ∧ (c.driveRun f now state duty).1.lastState = state)
      ∧ ((c.driveRun f now state duty).2 ≠ .ok () →
          (c.driveRun f now state duty).1.levels = c.levels ++ ss
            ∧ (c.driveRun f now state duty).1.lastState = c.lastState) := by
  have hset : ∀ duty, SpindleOutputs.energised ⟨duty, c.outputs.enable, dirLevel state⟩
      = c.turning state := fun duty => energised_direction c.outputs duty _
  obtain ⟨pwm, enable, direction⟩ := f
  cases direction
  case true => exact ⟨[], by simp, by simp [driveRun], fun _ => ⟨by simp [driveRun], rfl⟩⟩
  case false =>
    cases pwm
    case true =>
      refine ⟨[(now, c.turning state)], by simp, by simp [driveRun], fun _ => ⟨?_, rfl⟩⟩
      show (c.write now _).levels = _
      rw [levels_write, hset]
    case false =>
      refine ⟨[(now, c.turning state), (now, c.turning state)], by simp, fun h => ?_,
        fun h => ?_⟩
      · cases enable
        case true => exact absurd h (by simp [driveRun])
        case false =>
          refine ⟨?_, rfl⟩
          show (((c.write now ⟨c.outputs.duty, c.outputs.enable, dirLevel state⟩).write now
            ⟨duty, c.outputs.enable, dirLevel state⟩).write now
            ⟨duty, enableRun, dirLevel state⟩).levels = _
          rw [levels_write, levels_write, levels_write, hset, hset, List.append_assoc,
            List.append_assoc]
          rfl
      · cases enable
        case true =>
          refine ⟨?_, rfl⟩
          show ((c.write now ⟨c.outputs.duty, c.outputs.enable, dirLevel state⟩).write now
            ⟨duty, c.outputs.enable, dirLevel state⟩).levels = _
          rw [levels_write, levels_write, hset, hset, List.append_assoc]
          rfl
        case false => exact absurd rfl h

/-! ## What every call keeps -/

/-- **What a controller keeps**, at the time of its last call: the interlock, what
its outputs show, and that the state it drove last is the direction the spindle
last turned in. -/
structure Kept (dwell : K) (c : SpindleController K) (clock : K) : Prop where
  /-- The outputs are interlocked. -/
  interlocked : Interlocked dwell c.levels
  /-- Energised outputs are the last sample's. -/
  shown : ∀ e, c.outputs.energised = some e → coast c.levels = ⟨some e, none⟩
  /-- A controller that is not stopped last drove the direction that last ran. -/
  ran : c.lastState ≠ .stop → (coast c.levels).ran = some (dirLevel c.lastState)
  /-- The output was switched off in the past. -/
  past : ∀ t, (coast c.levels).since = some t → t ≤ clock

omit [Field K] [LinearOrder K] in
/-- Outputs that were just written are the last sample's. -/
theorem shown_write (c : SpindleController K) (now : K) (o : SpindleOutputs K) (e : Bool)
    (h : o.energised = some e) : coast (c.write now o).levels = ⟨some e, none⟩ := by
  rw [levels_write, coast_append, h]
  rfl

variable {dwell clock now : K} {c : SpindleController K} {f : Faults}

omit [LinearOrder K] in
theorem driveStop_shown
    (h : ∀ e, c.outputs.energised = some e → coast c.levels = ⟨some e, none⟩) (e : Bool)
    (he : (c.driveStop f now).1.outputs.energised = some e) :
    coast (c.driveStop f now).1.levels = ⟨some e, none⟩ := by
  obtain ⟨pwm, enable, direction⟩ := f
  cases enable
  case true => exact h e he
  case false =>
    cases pwm
    case true => exact shown_write _ _ _ _ he
    case false => exact shown_write (c.write now _) _ _ _ he

omit [Field K] [LinearOrder K] in
theorem driveRun_shown {state : SpindleState} {duty : K}
    (h : ∀ e, c.outputs.energised = some e → coast c.levels = ⟨some e, none⟩) (e : Bool)
    (he : (c.driveRun f now state duty).1.outputs.energised = some e) :
    coast (c.driveRun f now state duty).1.levels = ⟨some e, none⟩ := by
  obtain ⟨pwm, enable, direction⟩ := f
  cases direction
  case true => exact h e he
  case false =>
    cases pwm
    case true => exact shown_write _ _ _ _ he
    case false =>
      cases enable
      case true => exact shown_write (c.write now _) _ _ _ he
      case false => exact shown_write ((c.write now _).write now _) _ _ _ he

omit [LinearOrder K] in
/-- A stop leaves the direction that last ran. -/
theorem ran_driveStop (c : SpindleController K) (f : Faults) (now : K) :
    (coast (c.driveStop f now).1.levels).ran = (coast c.levels).ran := by
  obtain ⟨ss, hlevels, hss, -, -⟩ := driveStop_spec c f now
  rw [hlevels, coast_append]
  exact ran_foldl_sample_none _ ss fun s hs => (hss s hs).2

/-- **A stop keeps everything.** -/
theorem Kept.driveStop (hc : c.Kept dwell clock) (f : Faults) (hnow : clock ≤ now) :
    (c.driveStop f now).1.Kept dwell now := by
  obtain ⟨ss, hlevels, hss, hok, herr⟩ := driveStop_spec c f now
  refine ⟨?_, driveStop_shown hc.shown, fun hstate => ?_, fun t ht => ?_⟩
  · rw [hlevels]
    exact hc.interlocked.append_none ss fun s hs => (hss s hs).2
  · have hlast : (c.driveStop f now).1.lastState = c.lastState :=
      herr fun h => hstate (hok h).2
    rw [hlast] at hstate ⊢
    rw [ran_driveStop]
    exact hc.ran hstate
  · rw [hlevels, coast_append] at ht
    exact since_foldl_sample_le (fun u hu => (hc.past u hu).trans hnow) ss
      (fun s hs => (hss s hs).1.le) t ht

/-- **A run in a direction the spindle may run in keeps everything.** -/
theorem Kept.driveRun [IsStrictOrderedRing K] (hc : c.Kept dwell clock) (f : Faults)
    {state : SpindleState} {duty : K} (hnow : clock ≤ now)
    (hrun : (coast c.levels).MayRun dwell (dirLevel state) now) :
    (c.driveRun f now state duty).1.Kept dwell now := by
  obtain ⟨ss, hss, hok, herr⟩ := driveRun_spec c f now state duty
  have hlevel : ∀ s ∈ ss, s.1 = now ∧ (s.2 = none ∨ s.2 = some (dirLevel state)) := by
    intro s hs
    rw [hss s hs]
    refine ⟨rfl, ?_⟩
    unfold turning
    cases c.outputs.energised with
    | none => exact .inl rfl
    | some e => exact .inr rfl
  by_cases hres : (c.driveRun f now state duty).2 = .ok ()
  · obtain ⟨hlevels, hlast⟩ := hok hres
    have hcoast : coast (c.driveRun f now state duty).1.levels
        = ⟨some (dirLevel state), none⟩ := by
      rw [hlevels, coast_append, List.foldl_append]
      rfl
    refine ⟨?_, driveRun_shown hc.shown, fun _ => ?_, fun t ht => ?_⟩
    · rw [hlevels]
      refine hc.interlocked.append_of_mayRun hrun _ fun s hs => ?_
      rcases List.mem_append.1 hs with hs | hs
      · exact hlevel s hs
      · rw [List.mem_singleton.1 hs]
        exact ⟨rfl, .inr rfl⟩
    · rw [hcoast, hlast]
    · rw [hcoast] at ht
      exact absurd ht (by simp)
  · obtain ⟨hlevels, hlast⟩ := herr hres
    refine ⟨?_, driveRun_shown hc.shown, fun hstate => ?_, fun t ht => ?_⟩
    · rw [hlevels]
      exact hc.interlocked.append_of_mayRun hrun ss hlevel
    · rw [hlast] at hstate ⊢
      rw [hlevels, coast_append]
      have hran := hc.ran hstate
      cases he : c.outputs.energised with
      | none =>
        rw [ran_foldl_sample_none _ ss fun s hs => by rw [hss s hs]; unfold turning; rw [he]; rfl]
        exact hran
      | some e =>
        -- the outputs are on, so that the spindle may only run the way it does
        rw [hc.shown e he] at hran hrun ⊢
        have hsame : dirLevel state = e := by
          rcases hrun with h | h | ⟨t, h, -⟩
          · exact absurd h (by simp)
          · exact (Option.some.inj h).symm
          · exact absurd h (by simp)
        rw [← hran]
        refine ran_foldl_sample_same rfl ss fun s hs => ?_
        rw [hss s hs]
        unfold turning
        rw [he, hsame]
        rfl
    · rw [hlevels, coast_append] at ht
      exact since_foldl_sample_le (fun u hu => (hc.past u hu).trans hnow) ss
        (fun s hs => (hlevel s hs).1.le) t ht

/-! ## What the commands come to -/

variable (state : SpindleState) (rpm rpmMin rpmMax reverseDwellS : K)

theorem effective_eq_stop_or : effective state rpm = .stop ∨ effective state rpm = state := by
  unfold effective
  by_cases h : rpm ≤ 0
  · rw [if_pos h]
    exact .inl rfl
  · rw [if_neg h]
    exact .inr rfl

/-- A stop command stops. -/
theorem apply_of_stop (h : effective state rpm = .stop) :
    c.apply f now state rpm rpmMin rpmMax reverseDwellS
      = ((c.driveStop f now).1, (c.driveStop f now).2.map fun _ => .applied) := by
  unfold apply
  rw [h]

/-- A reversal of a controller that runs stops it, and says how long to wait. -/
theorem apply_of_reversing (h : effective state rpm ≠ .stop) (hrun : c.lastState ≠ .stop)
    (hrev : c.lastState ≠ effective state rpm) :
    c.apply f now state rpm rpmMin rpmMax reverseDwellS
      = ((c.driveStop f now).1, (c.driveStop f now).2.map fun _ =>
          .spinDownThenReverse (max reverseDwellS minReverseDwellS)) := by
  unfold apply
  generalize effective state rpm = e at h hrev ⊢
  cases e with
  | stop => exact absurd rfl h
  | clockwise => exact if_pos ⟨hrun, hrev⟩
  | counterClockwise => exact if_pos ⟨hrun, hrev⟩

/-- Any other command runs. -/
theorem apply_of_starting (h : effective state rpm ≠ .stop)
    (hstart : c.lastState = .stop ∨ c.lastState = effective state rpm) :
    c.apply f now state rpm rpmMin rpmMax reverseDwellS
      = ((c.driveRun f now (effective state rpm) (rpmToDuty rpm rpmMin rpmMax)).1,
          (c.driveRun f now (effective state rpm) (rpmToDuty rpm rpmMin rpmMax)).2.map
            fun _ => .applied) := by
  have hnot : ¬(c.lastState ≠ .stop ∧ c.lastState ≠ effective state rpm) :=
    fun hrev => hstart.elim hrev.1 hrev.2
  unfold apply
  generalize effective state rpm = e at h hnot ⊢
  cases e with
  | stop => exact absurd rfl h
  | clockwise => exact if_neg hnot
  | counterClockwise => exact if_neg hnot

theorem completeReverse_of_stop (h : effective state rpm = .stop) :
    c.completeReverse f now state rpm rpmMin rpmMax = c.driveStop f now := by
  unfold completeReverse
  rw [h]

theorem completeReverse_of_run (h : effective state rpm ≠ .stop) :
    c.completeReverse f now state rpm rpmMin rpmMax
      = c.driveRun f now (effective state rpm) (rpmToDuty rpm rpmMin rpmMax) := by
  unfold completeReverse
  generalize effective state rpm = e at h ⊢
  cases e with
  | stop => exact absurd rfl h
  | clockwise => rfl
  | counterClockwise => rfl

end SpindleController

namespace SpindleSession

open SpindleController

variable {settings : SpindleSettings K} {s : SpindleSession K} {ev : SpindleEvent K}

/-- The output is off, and its dwell is over when the reversal asked for may be
completed. -/
def Waits (settings : SpindleSettings K) (s : SpindleSession K) : Prop :=
  ∃ t deadline, (coast s.controller.levels).since = some t
    ∧ (coast s.controller.levels).ran.isSome ∧ s.asked = some deadline
    ∧ t + settings.dwell ≤ deadline

/-- **What a session keeps.** -/
structure Kept (settings : SpindleSettings K) (s : SpindleSession K) : Prop where
  /-- The controller keeps what it keeps. -/
  controller : s.controller.Kept settings.dwell s.clock
  /-- A reversal nothing has come across waits for its dwell. -/
  waits : s.undisturbed = true → s.Waits settings

theorem kept_new : (new : SpindleSession K).Kept settings where
  controller :=
    { interlocked := interlocked_nil
      shown := fun e he => absurd he (by simp [new, SpindleController.new,
        SpindleOutputs.energised])
      ran := fun h => absurd rfl h
      past := fun t ht => absurd ht (by simp [new, levels, SpindleController.new, coast]) }
  waits h := absurd h Bool.false_ne_true

/-- A stop leaves a reversal waiting. -/
theorem Waits.driveStop (h : s.Waits settings) (f : Faults) (now clock : K) (b : Bool) :
    (⟨(s.controller.driveStop f now).1, clock, s.asked, b⟩ :
      SpindleSession K).Waits settings := by
  obtain ⟨t, deadline, hsince, hran, hasked, hle⟩ := h
  obtain ⟨ss, hlevels, hss, -, -⟩ := driveStop_spec s.controller f now
  refine ⟨t, deadline, ?_, ?_, hasked, hle⟩
  · show (coast (s.controller.driveStop f now).1.levels).since = some t
    rw [hlevels, coast_append]
    exact since_foldl_sample_none ss (fun x hx => (hss x hx).2) hran hsince
  · show (coast (s.controller.driveStop f now).1.levels).ran.isSome
    rw [ran_driveStop]
    exact hran

theorem step_apply_driveStop {time : K} {faults : Faults} {state : SpindleState} {rpm : K}
    (heff : effective state rpm = .stop) :
    s.step settings ⟨time, faults, .apply state rpm⟩
      = ⟨(s.controller.driveStop faults time).1, time, s.asked, s.undisturbed⟩ := by
  unfold step
  simp only [apply_of_stop _ _ _ _ _ heff]
  cases (s.controller.driveStop faults time).2 <;> simp [Except.map, heff]

theorem step_apply_driveRun {time : K} {faults : Faults} {state : SpindleState} {rpm : K}
    (heff : effective state rpm ≠ .stop)
    (hstart : s.controller.lastState = .stop ∨ s.controller.lastState = effective state rpm) :
    s.step settings ⟨time, faults, .apply state rpm⟩
      = ⟨(s.controller.driveRun faults time (effective state rpm)
          (rpmToDuty rpm settings.rpmMin settings.rpmMax)).1, time, s.asked, false⟩ := by
  unfold step
  simp only [apply_of_starting _ _ _ _ _ heff hstart]
  cases (s.controller.driveRun faults time (effective state rpm)
    (rpmToDuty rpm settings.rpmMin settings.rpmMax)).2 <;> simp [Except.map, heff]

/-- **One call keeps what a session keeps**, when it is timely and not hurried. -/
theorem Kept.step [IsStrictOrderedRing K] (hs : s.Kept settings) (htimely : s.Timely ev)
    (hunhurried : s.Unhurried settings ev) : (s.step settings ev).Kept settings := by
  obtain ⟨time, faults, call⟩ := ev
  obtain ⟨hclock, hdeadline⟩ := htimely
  cases call with
  | apply state rpm =>
    by_cases heff : effective state rpm = .stop
    · rw [step_apply_driveStop heff]
      exact ⟨hs.controller.driveStop faults hclock,
        fun h => (hs.waits h).driveStop faults time time true⟩
    have hstate : effective state rpm = state :=
      (effective_eq_stop_or state rpm).resolve_left heff
    by_cases hstart : s.controller.lastState = .stop
        ∨ s.controller.lastState = effective state rpm
    · rw [step_apply_driveRun heff hstart]
      refine ⟨hs.controller.driveRun faults hclock ?_, fun h => absurd h Bool.false_ne_true⟩
      rcases hstart with hstop | hsame
      · rw [hstate]
        exact hunhurried heff hstop
      · rw [← hsame]
        exact .inr (.inl (hs.controller.ran (hsame ▸ heff)))
    · -- a reversal: the controller stops, and asks for the dwell
      obtain ⟨hrun, hrev⟩ := not_or.1 hstart
      have hkept := hs.controller.driveStop faults hclock
      unfold SpindleSession.step
      simp only [apply_of_reversing _ _ _ _ _ heff hrun hrev]
      cases hres : (s.controller.driveStop faults time).2 with
      | error e =>
        exact ⟨hkept, fun h => absurd (Bool.and_eq_true_iff.1 h).2 (by simpa using heff)⟩
      | ok u =>
        refine ⟨hkept, fun _ => ?_⟩
        obtain ⟨ss, hlevels, hss, hok, -⟩ := driveStop_spec s.controller faults time
        have hran := hs.controller.ran hrun
        obtain ⟨t, ht⟩ := exists_since_foldl_sample (h := coast s.controller.levels)
          (fun x hx => (hss x hx).2) (hok hres).1 (by rw [hran]; rfl)
        rw [← coast_append, ← hlevels] at ht
        refine ⟨t, _, ht, ?_, rfl, add_le_add_left (hkept.past t ht) _⟩
        show (coast (s.controller.driveStop faults time).1.levels).ran.isSome
        rw [ran_driveStop, hran]
        rfl
  | completeReverse state rpm =>
    unfold SpindleSession.step
    by_cases heff : effective state rpm = .stop
    · simp only [completeReverse_of_stop _ _ _ _ heff]
      refine ⟨hs.controller.driveStop faults hclock, fun h => ?_⟩
      exact (hs.waits (Bool.and_eq_true_iff.1 h).1).driveStop faults time time _
    · simp only [completeReverse_of_run _ _ _ _ heff]
      have hstate : effective state rpm = state :=
        (effective_eq_stop_or state rpm).resolve_left heff
      refine ⟨hs.controller.driveRun faults hclock ?_,
        fun h => absurd (Bool.and_eq_true_iff.1 h).2 (by simpa using heff)⟩
      rw [hstate]
      cases hund : s.undisturbed with
      | false => exact hunhurried heff hund
      | true =>
        -- nothing has come since the controller asked, and its dwell is over
        obtain ⟨t, deadline, hsince, -, hasked, hle⟩ := hs.waits hund
        obtain ⟨deadline', hasked', hdue⟩ := hdeadline
        obtain rfl : deadline = deadline' := Option.some.inj (hasked.symm.trans hasked')
        exact .inr (.inr ⟨t, hsince, hle.trans hdue⟩)
  | emergencyStop =>
    exact ⟨hs.controller.driveStop faults hclock,
      fun h => (hs.waits h).driveStop faults time time _⟩

/-- **The interlock of a session**: in every timely run without a hurried start,
between any two instants at which the spindle was energised in opposite
directions its output rested for the reversal dwell. -/
theorem interlocked_run [IsStrictOrderedRing K] (settings : SpindleSettings K)
    (events : List (SpindleEvent K))
    (htimely : Allowed (step settings) Timely new events)
    (hunhurried : Allowed (step settings) (Unhurried settings) new events) :
    Interlocked settings.dwell (events.foldl (step settings) new).controller.levels := by
  have hboth := htimely.and hunhurried
  exact (hboth.invariant (fun s ev hs h => hs.step h.1 h.2) kept_new).controller.interlocked

/-! ## Two runs -/

/-- `$31 = 0`, `$30 = 12000` and `$393 = 1.5`. -/
def benchSettings : SpindleSettings ℚ := ⟨0, 12000, 3 / 2⟩

/-- A reversal as the controller asks for it: `M3`, `M4` a second later, and the
completion after the dwell. -/
def reversalRun : List (SpindleEvent ℚ) :=
  [⟨0, .none, .apply .clockwise 1000⟩, ⟨1, .none, .apply .counterClockwise 1000⟩,
    ⟨5 / 2, .none, .completeReverse .counterClockwise 1000⟩]

theorem interlocked_reversalRun :
    Interlocked benchSettings.dwell
      (reversalRun.foldl (step benchSettings) new).controller.levels := by
  refine interlocked_run benchSettings reversalRun ?_ ?_
  · exact ⟨⟨by decide +kernel, trivial⟩, ⟨by decide +kernel, trivial⟩,
      ⟨by decide +kernel, 5 / 2, by decide +kernel, by decide +kernel⟩, trivial⟩
  · exact ⟨fun _ _ => .inl (by decide +kernel),
      fun _ h => absurd h (by decide +kernel),
      fun _ h => absurd h (by decide +kernel), trivial⟩

/-- An `M4` in the same instant as the `M5` before it. -/
def stopAndReverseRun : List (SpindleEvent ℚ) :=
  [⟨0, .none, .apply .clockwise 1000⟩, ⟨1, .none, .apply .stop 0⟩,
    ⟨1, .none, .apply .counterClockwise 1000⟩]

/-- **An `M5` defeats the interlock**: the `M4` after it is energised at once. -/
theorem not_interlocked_stopAndReverseRun :
    Allowed (step benchSettings) Timely new stopAndReverseRun
      ∧ ¬Interlocked benchSettings.dwell
          (stopAndReverseRun.foldl (step benchSettings) new).controller.levels := by
  refine ⟨⟨⟨by decide +kernel, trivial⟩, ⟨by decide +kernel, trivial⟩,
    ⟨by decide +kernel, trivial⟩, trivial⟩, fun h => ?_⟩
  have hlevels : (stopAndReverseRun.foldl (step benchSettings) new).controller.levels
      = [(0, none), (0, none)] ++ (0, some true) :: [(1, none), (1, none), (1, none), (1, none)]
        ++ [(1, some false)] := by decide +kernel
  rw [hlevels] at h
  obtain ⟨off, hoff, on, hon, hnone, hle⟩ := h.exists_rest rfl rfl (by decide)
  revert off on
  decide +kernel

end SpindleSession
end Galdr
