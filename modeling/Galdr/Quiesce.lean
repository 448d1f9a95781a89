import Galdr.MotionTasks
import Galdr.Runs

/-!
# Parking the executor

A stop drops an acknowledgement from before, raises the hold level, wakes the executor and
waits for it to acknowledge that it has parked. The executor acknowledges a park once, as it
enters it. One that was parked on a hold before reads the level again, finds it set, and
waits on: the stop that waits for it waits for ever, and no byte but a reset ends it
(`stuck_of_parked`).

Where the executor is not in a park as an acknowledgement from before is dropped, the two
never get stuck, and no block is executed when the executor is reported to have parked
(`handshake_run`).
-/

namespace Galdr.Tasks

open Comms Runs

namespace ConsumerAt

/-- A stop is under way. -/
def stopping : ConsumerAt → Bool
  | flushed _ | drained _ | raised _ | quiescing _ | quiesced _ => true
  | _ => false

/-- A stop is to drop the acknowledgements from before. -/
def dropsPark : ConsumerAt → Bool
  | flushed _ => true
  | _ => false

/-- A stop has dropped the acknowledgements from before, and has none yet. -/
def awaitsPark : ConsumerAt → Bool
  | drained _ | raised _ | quiescing _ => true
  | _ => false

theorem stopping_of_awaitsPark {c : ConsumerAt} (h : c.awaitsPark = true) : c.stopping = true := by
  cases c <;> first | rfl | exact absurd h Bool.false_ne_true

end ConsumerAt

namespace Machine

/-- A stop waits for the executor, which is parked, and nothing is pending for either. -/
def Stuck (s : Machine) : Prop :=
  (∃ kind, s.consumer = .quiescing kind) ∧ s.executor = .parkedWait
    ∧ s.motionParked = false ∧ s.holdWake = false

/-- The executor is not in a park as a stop drops the acknowledgement from before. -/
def AcksThis (s : Machine) (action : Action) : Prop :=
  action = .quiesce → s.consumer.dropsPark = true → s.executor.parked = false

instance (s : Machine) (action : Action) : Decidable (s.AcksThis action) :=
  inferInstanceAs
    (Decidable (action = .quiesce → s.consumer.dropsPark = true → s.executor.parked = false))

/-- What carries it; `acks` says that the executor is in no park as a stop drops an
acknowledgement. -/
structure Handshake (acks : Prop) (s : Machine) : Prop where
  /-- During a jog there are only jogs in the queue. -/
  jogs : s.control = .jog → ∀ b ∈ s.queue, b.jog = true
  /-- During a stop the queue is empty. -/
  empty : s.consumer.stopping = true → s.queue = []
  /-- Behind an acknowledgement no block is executed. -/
  rest : s.consumer.awaitsPark = true → s.motionParked = true → s.executor.block = none
  /-- Nor behind the report. -/
  reported : (∃ kind, s.consumer = .quiesced kind) → s.executor.block = none
  /-- Then a park is acknowledged to the stop. -/
  acked : acks → s.consumer.awaitsPark = true → s.executor.parked = true → s.motionParked = true

variable {acks : Prop} {s s' : Machine}

/-- What touches neither the consumer, the executor, the queue, the acknowledgement nor the mode
keeps it. -/
theorem Handshake.same (h : s.Handshake acks) (hcontrol : s'.control = .jog → s.control = .jog)
    (hqueue : s'.queue = s.queue) (hconsumer : s'.consumer = s.consumer)
    (hparked : s'.motionParked = s.motionParked) (hexecutor : s'.executor = s.executor) :
    s'.Handshake acks where
  jogs := fun hjog => hqueue ▸ h.jogs (hcontrol hjog)
  empty := by rw [hqueue, hconsumer]; exact h.empty
  rest := by rw [hconsumer, hparked, hexecutor]; exact h.rest
  reported := by rw [hconsumer, hexecutor]; exact h.reported
  acked := by rw [hconsumer, hparked, hexecutor]; exact h.acked

/-- A consumer that is at no stop keeps it, if the queue fits the mode. -/
theorem Handshake.of_not_stopping (hconsumer : s'.consumer.stopping = false)
    (hjogs : s'.control = .jog → ∀ b ∈ s'.queue, b.jog = true) : s'.Handshake acks where
  jogs := hjogs
  empty := fun hstop => absurd (hconsumer.symm.trans hstop) Bool.false_ne_true
  rest := fun hawaits =>
    absurd (hconsumer.symm.trans (ConsumerAt.stopping_of_awaitsPark hawaits)) Bool.false_ne_true
  reported := by
    rintro ⟨kind, hkind⟩
    rw [hkind] at hconsumer
    cases hconsumer
  acked := fun _ hawaits =>
    absurd (hconsumer.symm.trans (ConsumerAt.stopping_of_awaitsPark hawaits)) Bool.false_ne_true

/-- The executor moves on without a block, and outside the park. -/
theorem Handshake.moveOn (h : s.Handshake acks) (hcontrol : s'.control = s.control)
    (hqueue : s'.queue = s.queue) (hconsumer : s'.consumer = s.consumer)
    (hparked : s'.motionParked = s.motionParked) (hblock : s'.executor.block = none)
    (hpark : s'.executor.parked = true → s.executor.parked = true) : s'.Handshake acks where
  jogs := fun hjog => hqueue ▸ h.jogs (hcontrol ▸ hjog)
  empty := by rw [hqueue, hconsumer]; exact h.empty
  rest := fun _ _ => hblock
  reported := fun _ => hblock
  acked := by
    rw [hconsumer, hparked]
    exact fun hacks hawaits hp => h.acked hacks hawaits (hpark hp)

/-- **Every step of the executor keeps it.** -/
theorem Handshake.executorStep (h : s.Handshake acks) (wake : Wake) : (s.executorStep wake).Handshake acks := by
  unfold Machine.executorStep
  cases hexecutor : s.executor with
  | top => dsimp only; split <;> exact h.moveOn rfl rfl rfl rfl rfl fun hp => by cases hp
  | boundary =>
    dsimp only
    split <;> exact h.moveOn rfl rfl rfl rfl rfl fun hp => by cases hp
  | parking =>
    -- the acknowledgement of the park that begins
    exact ⟨h.jogs, h.empty, fun _ _ => rfl, fun _ => rfl, fun _ _ _ => rfl⟩
  | parkedTop =>
    dsimp only
    split <;> exact h.moveOn rfl rfl rfl rfl rfl fun _ => by rw [hexecutor]; rfl
  | parkedLevel =>
    dsimp only
    split <;> exact h.moveOn rfl rfl rfl rfl rfl fun _ => by rw [hexecutor]; rfl
  | parkedWait =>
    cases wake with
    | hold =>
      dsimp only
      split
      · exact h.moveOn rfl rfl rfl rfl rfl fun _ => by rw [hexecutor]; rfl
      · exact h
    | reset =>
      dsimp only
      split
      · exact h.moveOn rfl rfl rfl rfl rfl fun _ => by rw [hexecutor]; rfl
      · exact h
    | block => exact h
    | tick => exact h
  | popping =>
    cases hqueue : s.queue with
    | nil =>
      dsimp only
      exact h.moveOn rfl hqueue.symm rfl rfl rfl fun hp => by cases hp
    | cons b rest =>
      -- a stop has left no block to take
      refine of_not_stopping (Bool.eq_false_iff.2 fun hstop => ?_) fun hjog c hc => ?_
      · have hempty := h.empty hstop
        rw [hqueue] at hempty
        cases hempty
      · exact h.jogs hjog c (hqueue ▸ List.mem_cons_of_mem b hc)
  | popped b =>
    have hblock : s.executor.block = some b := by rw [hexecutor]; rfl
    refine ⟨h.jogs, h.empty, fun hawaits hp => ?_, fun hreported => ?_, fun _ _ hp => ?_⟩
    · exact absurd (hblock.symm.trans (h.rest hawaits hp)) (Option.some_ne_none b)
    · exact absurd (hblock.symm.trans (h.reported hreported)) (Option.some_ne_none b)
    · cases hp
  | executing b => exact h.moveOn rfl rfl rfl rfl rfl fun hp => by cases hp
  | idle =>
    cases wake with
    | hold =>
      dsimp only
      split
      · exact h.moveOn rfl rfl rfl rfl rfl fun hp => by cases hp
      · exact h
    | reset =>
      dsimp only
      split
      · exact h.moveOn rfl rfl rfl rfl rfl fun hp => by cases hp
      · exact h
    | block =>
      dsimp only
      split
      · exact h.moveOn rfl rfl rfl rfl rfl fun hp => by cases hp
      · exact h
    | tick => exact h.moveOn rfl rfl rfl rfl rfl fun hp => by cases hp

/-- A byte begins no jog. -/
theorem control_ne_jog {cmd : RealtimeCommand} {c : ControlState} (h : cmd.control c = .jog) :
    c = .jog := by
  cases cmd <;> first | exact h | skip
  case feedHold => cases c <;> first | rfl | cases h
  case cycleStart =>
    unfold RealtimeCommand.control at h
    dsimp only at h
    split at h
    · cases c <;> first | rfl | cases h
    · exact h

/-- **Every step of a stop keeps it**, if the executor acknowledges this one. -/
theorem Handshake.quiesce (h : s.Handshake acks) (hacks : acks → s.AcksThis .quiesce) : s.quiesce.Handshake acks := by
  unfold Machine.quiesce
  cases hconsumer : s.consumer with
  | waiting | handling | resetting => exact h
  | flushed kind =>
    refine ⟨h.jogs, fun _ => h.empty (by rw [hconsumer]; rfl), fun _ hp => (by cases hp),
      fun hk => (by obtain ⟨k, hk⟩ := hk; cases hk), fun ha _ hp => ?_⟩
    have hpark := hacks ha rfl (by rw [hconsumer]; rfl)
    exact absurd (hpark.symm.trans hp) Bool.false_ne_true
  | drained kind =>
    refine ⟨h.jogs, fun _ => h.empty (by rw [hconsumer]; rfl),
      fun _ => h.rest (by rw [hconsumer]; rfl), fun hk => (by obtain ⟨k, hk⟩ := hk; cases hk),
      fun ha _ => h.acked ha (by rw [hconsumer]; rfl)⟩
  | raised kind =>
    refine ⟨h.jogs, fun _ => h.empty (by rw [hconsumer]; rfl),
      fun _ => h.rest (by rw [hconsumer]; rfl), fun hk => (by obtain ⟨k, hk⟩ := hk; cases hk),
      fun ha _ => h.acked ha (by rw [hconsumer]; rfl)⟩
  | quiescing kind =>
    dsimp only
    split
    · rename_i hp
      exact ⟨h.jogs, fun _ => h.empty (by rw [hconsumer]; rfl),
        fun hawaits => (by cases hawaits),
        fun _ => h.rest (by rw [hconsumer]; rfl) hp, fun _ hawaits => (by cases hawaits)⟩
    split
    · exact of_not_stopping rfl h.jogs
    · exact h
  | quiesced kind =>
    have hempty := h.empty (by rw [hconsumer]; rfl)
    cases kind with
    | programStop => exact of_not_stopping rfl fun _ b hb => absurd (hempty ▸ hb) List.not_mem_nil
    | jogCancel => exact of_not_stopping rfl fun _ b hb => absurd (hempty ▸ hb) List.not_mem_nil

/-- **Every step keeps it**, if the executor acknowledges the stop that begins. -/
theorem Handshake.step (h : s.Handshake acks) (action : Action) (hacks : acks → s.AcksThis action) :
    (s.step action).Handshake acks := by
  cases action with
  | execute wake => exact h.executorStep wake
  | quiesce => exact h.quiesce hacks
  | byte cmd =>
    unfold Machine.step dispatch
    dsimp only
    split
    · exact h.same control_ne_jog rfl rfl rfl rfl
    · exact h
  | store =>
    unfold Machine.step store
    cases s.stores with
    | nil => exact h
    | cons store rest => cases store <;> exact h.same id rfl rfl rfl rfl
  | receive => exact h.same id rfl rfl rfl rfl
  | check n =>
    unfold Machine.step Machine.check
    dsimp only
    repeat' split
    all_goals exact h.same id rfl rfl rfl rfl
  | takeLine =>
    unfold Machine.step
    dsimp only
    split
    · exact of_not_stopping rfl h.jogs
    · exact h
  | plan jog =>
    unfold Machine.step
    dsimp only
    split
    · rename_i hplan
      obtain ⟨hconsumer, hjog, hline⟩ := hplan
      refine of_not_stopping (by rw [hconsumer]; rfl) fun hmode b hb => ?_
      cases jog with
      | false => exact absurd hmode (hline rfl)
      | true =>
        rcases List.mem_append.1 hb with hb | hb
        · rcases hjog rfl with hcontrol | ⟨-, hempty⟩
          · exact h.jogs hcontrol b hb
          · exact absurd (hempty ▸ hb) List.not_mem_nil
        · rw [List.mem_singleton.1 hb]
    · exact h
  | await point =>
    unfold Machine.step
    dsimp only
    split
    · exact of_not_stopping rfl h.jogs
    · exact h
  | resume =>
    unfold Machine.step
    dsimp only
    split
    · exact h
    · exact of_not_stopping rfl h.jogs
    · exact h
  | finish =>
    unfold Machine.step
    dsimp only
    split
    · exact of_not_stopping rfl h.jogs
    · exact h
  | setControl c =>
    unfold Machine.step
    dsimp only
    split
    · exact h
    · rename_i hc
      exact h.same (fun hjog => absurd hjog hc) rfl rfl rfl rfl
  | sleep =>
    unfold Machine.step
    dsimp only
    split
    · exact h.same (fun hjog => by cases hjog) rfl rfl rfl rfl
    · exact h
  | serveReset wasInCycle homingEnabled =>
    unfold Machine.step
    dsimp only
    split
    · split
      · refine of_not_stopping rfl fun hjog => ?_
        cases wasInCycle <;> cases homingEnabled <;> cases hjog
      · exact h
    · exact h
  | rebuild =>
    unfold Machine.step
    dsimp only
    split
    · exact of_not_stopping rfl fun _ b hb => absurd hb List.not_mem_nil
    · exact h
  | serveStop =>
    unfold Machine.step
    dsimp only
    split
    · split
      · split
        · refine ⟨fun _ b hb => absurd hb List.not_mem_nil, fun _ => rfl,
            fun hawaits => (by cases hawaits), fun hk => (by obtain ⟨k, hk⟩ := hk; cases hk),
            fun _ hawaits => (by cases hawaits)⟩
        · exact of_not_stopping rfl h.jogs
      · exact h
    · exact h
  | serveCancel =>
    unfold Machine.step
    dsimp only
    split
    · rename_i hserve
      split
      · rename_i hjog
        have hempty : flushQueue .jogCancel s.queue = [] :=
          List.rdropWhile_eq_nil_iff.2 (h.jogs hjog)
        refine ⟨fun _ b hb => absurd (hempty ▸ hb) List.not_mem_nil, fun _ => hempty,
          fun hawaits => (by cases hawaits), fun hk => (by obtain ⟨k, hk⟩ := hk; cases hk),
          fun _ hawaits => (by cases hawaits)⟩
      · exact of_not_stopping (by rw [hserve.1]; rfl) h.jogs
    · exact h

/-! ## Whole runs -/

/-- A park that is acknowledged leaves nothing stuck. -/
theorem Handshake.not_stuck (h : s.Handshake True) : ¬s.Stuck := by
  rintro ⟨⟨kind, hconsumer⟩, hexecutor, hparked, -⟩
  have hacked := h.acked trivial (by rw [hconsumer]; rfl) (by rw [hexecutor]; rfl)
  rw [hparked] at hacked
  cases hacked

theorem handshake_start (homingEnabled : Bool) : (start homingEnabled).Handshake acks :=
  .of_not_stopping rfl fun _ _ hb => absurd hb List.not_mem_nil

/-- **When a stop is told that the executor has parked, no block is executed**, in every run;
**and the two never get stuck**, in every run in which the executor is in no park as a stop
drops the acknowledgement from before. -/
theorem handshake_run (homingEnabled : Bool) (actions : List Action) :
    (∀ kind, (actions.foldl step (start homingEnabled)).consumer = .quiesced kind →
        (actions.foldl step (start homingEnabled)).executor.block = none)
      ∧ (Allowed step AcksThis (start homingEnabled) actions →
        ¬(actions.foldl step (start homingEnabled)).Stuck) := by
  constructor
  · intro kind hkind
    have hreached : (actions.foldl step (start homingEnabled)).Handshake False :=
      List.foldlRecOn actions step (handshake_start homingEnabled)
        fun s h action _ => h.step action False.elim
    exact hreached.reported ⟨kind, hkind⟩
  · intro hrun
    have hkeep (s : Machine) (action : Action) (h : s.Handshake True) (hacks : s.AcksThis action) :
        (s.step action).Handshake True := h.step action fun _ => hacks
    exact (hrun.invariant hkeep (handshake_start homingEnabled)).not_stuck

/-- A program stop that finds a block executing. -/
def stopsBlock : List Action :=
  [.receive, .takeLine, .plan false, .finish, .execute .tick, .execute .tick, .execute .tick,
    .execute .tick, .byte .programStop, .store, .serveStop, .quiesce, .quiesce, .quiesce,
    .execute .tick, .execute .tick, .execute .tick, .execute .tick, .quiesce]

theorem handshake_run_stopsBlock :
    (stopsBlock.foldl step (start false)).consumer = .quiesced .programStop
      ∧ (stopsBlock.foldl step (start false)).executor.block = none
      ∧ ¬(stopsBlock.foldl step (start false)).Stuck := by
  have hrun := handshake_run false stopsBlock
  exact ⟨rfl, hrun.1 .programStop rfl, hrun.2 (by decide)⟩

/-- A program stop during a hold. -/
def stopsHold : List Action :=
  [.byte .feedHold, .store, .store, .execute .tick, .execute .tick, .execute .tick, .execute .tick,
    .execute .tick, .execute .hold, .execute .tick, .execute .tick, .byte .programStop, .store,
    .serveStop, .quiesce, .quiesce, .quiesce, .execute .hold, .execute .tick, .execute .tick]

/-- A stop during a hold gets stuck. -/
theorem not_handshake :
    ¬∀ (homingEnabled : Bool) (actions : List Action),
      ¬(actions.foldl step (start homingEnabled)).Stuck
        ∧ ∀ kind, (actions.foldl step (start homingEnabled)).consumer = .quiesced kind →
          (actions.foldl step (start homingEnabled)).executor.block = none := by
  intro h
  exact (h false stopsHold).1 ⟨⟨.programStop, rfl⟩, rfl, rfl, rfl⟩

end Machine

end Galdr.Tasks
