import Galdr.IdleCheck
import Galdr.Runs

/-!
# The latch of a soft reset

The reader latches at each reset byte whether a block is executing, and the consumer takes the
latch as it applies the reset: a block that was aborted has lost its position, and the machine
is to enter the alarm of an abort. But a byte stores what it finds over what was latched: where
a second one comes after the executor has stopped and before the consumer applies the first, the
abort is forgotten.

A reset that is applied in any state of a run enters the alarm after an abort exactly if no
reset byte of the run finds the executor stopped while an abort is to be reported
(`latched_iff_allowed`).
-/

namespace Galdr.Tasks

open Comms Runs

/-- The tasks, with the latch of a reset. -/
structure ResetTasks where
  /-- The tasks. -/
  tasks : Machine
  /-- The latch: a block was executing. -/
  resetWasRunning : Bool
  /-- A reset byte since the last reset that was applied has come while a block was executing. -/
  aborted : Bool

namespace ExecutorAt

/-- A block is executing. -/
def executes : ExecutorAt → Bool
  | executing _ => true
  | _ => false

end ExecutorAt

namespace ResetTasks

/-- The tasks at power on. -/
def start (homingEnabled : Bool) : ResetTasks := ⟨.start homingEnabled, false, false⟩

/-- The reader takes a reset byte: it is done with the last byte. -/
def TakesReset (s : ResetTasks) (action : Action) : Prop :=
  ∃ cmd, action = .byte cmd ∧ cmd.resets = true ∧ s.tasks.stores = []

/-- The consumer applies a reset: it waits, and a reset is signalled. -/
def applies (s : ResetTasks) : Bool :=
  match s.tasks.consumer with
  | .waiting point => s.tasks.softReset && (point ≠ .line || s.tasks.lines = [])
  | _ => false

/-- The control state that a reset enters, applied now. -/
def applied (s : ResetTasks) (homingEnabled : Bool) : ControlState :=
  s.tasks.control.softReset s.resetWasRunning homingEnabled

/-- One step of one of the tasks; whether a block was executing is read from the latch. -/
def step (s : ResetTasks) (action : Action) : ResetTasks :=
  match action with
  | .byte cmd =>
    if cmd.resets = true ∧ s.tasks.stores = [] then
      ⟨s.tasks.step (.byte cmd), s.tasks.executorRunning,
        s.aborted || s.tasks.executor.executes⟩
    else { s with tasks := s.tasks.step (.byte cmd) }
  | .serveReset _ homingEnabled =>
    if s.applies then ⟨s.tasks.step (.serveReset s.resetWasRunning homingEnabled), false, false⟩
    else s
  | action => { s with tasks := s.tasks.step action }

/-- After an abort, a reset that is applied enters the alarm of one. -/
def Latched (s : ResetTasks) : Prop :=
  s.aborted = true → ∀ homingEnabled, s.applied homingEnabled = .alarm .abortDuringCycle

/-- After an abort, a reset byte finds a block executing. -/
def FindsBlock (s : ResetTasks) (action : Action) : Prop :=
  s.TakesReset action → s.aborted = true → s.tasks.executorRunning = true

variable {s : ResetTasks}

theorem applied_eq_alarm_iff (homingEnabled : Bool) :
    s.applied homingEnabled = .alarm .abortDuringCycle ↔ s.resetWasRunning = true := by
  unfold applied ControlState.softReset
  cases s.resetWasRunning <;> cases homingEnabled <;> simp [ControlState.boot]

theorem latched_iff : s.Latched ↔ (s.aborted = true → s.resetWasRunning = true) := by
  simp only [Latched, applied_eq_alarm_iff, forall_const]

/-- The steps of the latch are steps of the tasks. -/
theorem flagged_step (h : s.tasks.Flagged) (action : Action) : (s.step action).tasks.Flagged := by
  unfold step
  cases action with
  | byte cmd =>
    dsimp only
    split <;> exact h.step (.byte cmd)
  | serveReset wasInCycle homingEnabled =>
    dsimp only
    split
    · exact h.step (.serveReset s.resetWasRunning homingEnabled)
    · exact h
  | _ =>
    dsimp only
    exact h.step _

/-- The flag of the executor says whether a block is executing. -/
theorem executes_eq (h : s.tasks.Flagged) :
    s.tasks.executor.executes = s.tasks.executorRunning := by
  cases hrunning : s.tasks.executorRunning with
  | false =>
    have hnone := h.clear.mp hrunning
    cases hexecutor : s.tasks.executor with
    | executing b => exact absurd hexecutor (hnone b)
    | _ => rfl
  | true =>
    cases hexecutor : s.tasks.executor with
    | executing b => rfl
    | _ =>
      have hclear := h.clear.mpr fun b hb => by rw [hexecutor] at hb; cases hb
      rw [hrunning] at hclear
      cases hclear

/-- **One step**: it keeps the latch right exactly if a reset byte after an abort finds a block
executing. -/
theorem latched_step_iff (hflag : s.tasks.Flagged) (h : s.Latched) (action : Action) :
    (s.step action).Latched ↔ s.FindsBlock action := by
  rw [latched_iff]
  have hkept (hnot : ¬s.TakesReset action) (haborted : (s.step action).aborted = s.aborted)
      (hlatch : (s.step action).resetWasRunning = s.resetWasRunning) :
      ((s.step action).aborted = true → (s.step action).resetWasRunning = true)
        ↔ s.FindsBlock action := by
    rw [haborted, hlatch]
    exact iff_of_true (latched_iff.mp h) fun htakes => absurd htakes hnot
  cases action with
  | byte cmd =>
    by_cases htakes : cmd.resets = true ∧ s.tasks.stores = []
    · -- the byte stores what it finds
      have haborted : (s.step (.byte cmd)).aborted
          = (s.aborted || s.tasks.executorRunning) := by
        simp only [step, if_pos htakes, executes_eq hflag]
      have hlatch : (s.step (.byte cmd)).resetWasRunning = s.tasks.executorRunning := by
        simp only [step, if_pos htakes]
      rw [haborted, hlatch]
      constructor
      · exact fun himp _ hs => himp (by rw [hs]; rfl)
      · intro hfinds hor
        rcases Bool.or_eq_true_iff.mp hor with hs | hrunning
        · exact hfinds ⟨cmd, rfl, htakes.1, htakes.2⟩ hs
        · exact hrunning
    · refine hkept ?_ (by simp only [step, if_neg htakes]) (by simp only [step, if_neg htakes])
      rintro ⟨cmd', hcmd, hresets, hfree⟩
      obtain rfl := Action.byte.inj hcmd
      exact htakes ⟨hresets, hfree⟩
  | serveReset wasInCycle homingEnabled =>
    by_cases happlies : s.applies = true
    · refine iff_of_true (fun haborted => ?_) ?_
      · simp only [step, if_pos happlies] at haborted
        cases haborted
      · rintro ⟨cmd, hcmd, -⟩
        cases hcmd
    · refine hkept ?_ (by simp only [step, if_neg happlies]) (by simp only [step, if_neg happlies])
      rintro ⟨cmd, hcmd, -⟩
      cases hcmd
  | _ =>
    refine hkept ?_ rfl rfl
    rintro ⟨cmd, hcmd, -⟩
    cases hcmd

theorem latched_start (homingEnabled : Bool) : (start homingEnabled).Latched :=
  fun haborted => by cases haborted

/-- **A reset that is applied in any state of a run enters the alarm after an abort exactly if no
reset byte of the run finds the executor stopped while an abort is to be reported.** -/
theorem latched_iff_allowed (homingEnabled : Bool) (actions : List Action) :
    (∀ n, ((actions.take n).foldl step (start homingEnabled)).Latched)
      ↔ Allowed step FindsBlock (start homingEnabled) actions := by
  have hflagged (ops : List Action) : ((ops.foldl step (start homingEnabled)).tasks).Flagged :=
    List.foldlRecOn ops step (motive := fun s => s.tasks.Flagged)
      (Machine.flagged_start homingEnabled) fun s hs action _ => flagged_step hs action
  have hstep : ∀ s action, (s.tasks.Flagged ∧ s.Latched) →
      (((step s action).tasks.Flagged ∧ (step s action).Latched) ↔ FindsBlock s action) := by
    intro s action hs
    rw [and_iff_right (flagged_step hs.1 action)]
    exact latched_step_iff hs.1 hs.2 action
  have hinv := allowed_iff_forall_take hstep
    ⟨Machine.flagged_start homingEnabled, latched_start homingEnabled⟩ actions
  rw [hinv]
  exact forall_congr' fun n => (and_iff_right (hflagged _)).symm

/-- Two reset bytes around the end of the block. -/
def twoResets : List Action :=
  [.receive, .takeLine, .plan false, .finish, .execute .tick, .execute .tick, .execute .tick,
    .execute .tick, .byte .softReset, .store, .store, .store, .store, .store, .store, .store,
    .execute .tick, .byte .softReset]

/-- **The second byte forgets the abort**: the machine is idle after the reset. -/
theorem not_latched :
    ¬∀ (homingEnabled : Bool) (actions : List Action) (wasInCycle homing : Bool),
      (actions.foldl step (start homingEnabled)).applies = true →
      (actions.foldl step (start homingEnabled)).aborted = true →
        ((actions.foldl step (start homingEnabled)).step
          (.serveReset wasInCycle homing)).tasks.control = .alarm .abortDuringCycle := by
  intro h
  have hcontrol := h false (twoResets ++ List.replicate 7 .store) false false rfl rfl
  cases hcontrol

end ResetTasks

end Galdr.Tasks
