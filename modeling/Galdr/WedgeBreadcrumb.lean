import Mathlib

/-!
# The breadcrumb of a wedge

A board that stops making progress is reset by its watchdog, and one word of memory that survives
the reset tells the next boot why: the *withhold* word. Two writers share it. The feed task feeds
the watchdog twice a second, and where it finds motion or communication stuck it records that and
does not feed. A timer interrupt watches the beat of the feed task and records that the executor
itself stands still. Each clears only its own reason, and only if the word still holds it.
-/

namespace Galdr.Crash

/-- Why the feed was withheld. -/
inductive WithholdReason
  /-- Motion stopped with a block in flight. -/
  | core1Motion
  /-- Communication stopped with a host sending. -/
  | core0Comms
  /-- Responses were queued and none was sent. -/
  | deadZone
  /-- The executor stood still. -/
  | core0ExecutorStall
  deriving DecidableEq

/-- The number of a reason. -/
def WithholdReason.code : WithholdReason → UInt32
  | core1Motion => 1
  | core0Comms => 2
  | deadZone => 3
  | core0ExecutorStall => 4

/-- The tag of a word that holds a reason. -/
def withholdTag : UInt32 := 0x57480000

/-- The word of a reason. -/
def withholdWord (reason : WithholdReason) : UInt32 := withholdTag ||| reason.code

/-- A word has the tag. -/
def withholdTagOk (packed : UInt32) : Bool := packed &&& 0xFFFF0000 == withholdTag

/-- A word names a wedge. -/
def withholdWasWedge (packed : UInt32) : Bool := withholdTagOk packed && packed &&& 0xFF != 0

/-- The position is suspect after a reset with this word. -/
def positionSuspect (packed : UInt32) : Bool := withholdWasWedge packed

/-- The word after a reason has been cleared, if it was that one. -/
def clearWithholdIf (word : UInt32) (reason : WithholdReason) : UInt32 :=
  if word = withholdWord reason then 0 else word

@[simp] theorem positionSuspect_withholdWord (reason : WithholdReason) :
    positionSuspect (withholdWord reason) = true := by
  cases reason <;> decide

@[simp] theorem withholdWord_ne_zero (reason : WithholdReason) : withholdWord reason ≠ 0 := by
  cases reason <;> decide

@[simp] theorem withholdWord_inj {r s : WithholdReason} :
    withholdWord r = withholdWord s ↔ r = s := by
  cases r <;> cases s <;> decide

@[simp] theorem clearWithholdIf_self (reason : WithholdReason) :
    clearWithholdIf (withholdWord reason) reason = 0 := if_pos rfl

/-! ## The interrupt -/

/-- The greatest 32-bit number: a count stops there, and as a beat it means that there is none. -/
def u32Max : ℕ := 4294967295

/-- Milliseconds between two samples. -/
def sampleIntervalMs : ℕ := 250

/-- Milliseconds between two feeds. -/
def watchdogFeedIntervalMs : ℕ := 500

/-- Samples without a beat that are a stall. -/
def executorStallTicks : ℕ := 16

/-- Samples with a beat, in a row, after which a recorded stall is cleared. -/
def frozenRecoveryDebounceTicks : ℕ :=
  (watchdogFeedIntervalMs + sampleIntervalMs - 1) / sampleIntervalMs

/-- What the interrupt remembers. -/
structure StallDetector where
  /-- The beat at the last sample, or the greatest number before the first. -/
  lastExecutorAlive : UInt32
  /-- Samples without a beat, in a row. -/
  executorAliveFrozen : ℕ
  /-- The stall has been recorded. -/
  stallLatched : Bool
  /-- Samples with a beat since the last one without, counted up to the debounce. -/
  frozenRecoveryTicks : ℕ
  deriving DecidableEq

namespace StallDetector

/-- Before the first sample. -/
def new : StallDetector := ⟨4294967295, 0, false, 0⟩

/-- The beat that a sample is compared with. -/
def baseline (d : StallDetector) (alive : UInt32) : UInt32 :=
  if d.lastExecutorAlive = 4294967295 then alive else d.lastExecutorAlive

/-- There was no beat since the last sample. -/
def frozen (d : StallDetector) (alive : UInt32) : Bool := alive != 0 && alive == d.baseline alive

/-- One sample: what the interrupt remembers, and the word. -/
def fire (d : StallDetector) (alive word : UInt32) : StallDetector × UInt32 :=
  let frozen := d.frozen alive
  let frozenTicks := if frozen then min (d.executorAliveFrozen + 1) u32Max else 0
  let recovered := if frozen then 0 else d.frozenRecoveryTicks
  if executorStallTicks ≤ frozenTicks then
    (⟨alive, frozenTicks, true, recovered⟩,
      if d.stallLatched then word else withholdWord .core0ExecutorStall)
  else if frozen then (⟨alive, frozenTicks, d.stallLatched, recovered⟩, word)
  else if recovered < frozenRecoveryDebounceTicks then
    (⟨alive, frozenTicks, false, recovered + 1⟩,
      if frozenRecoveryDebounceTicks ≤ recovered + 1 then
        clearWithholdIf word .core0ExecutorStall
      else word)
  else (⟨alive, frozenTicks, false, recovered⟩, word)

/-- A sample without a beat: the debounce starts again, and the stall is recorded when the count
gets to it. -/
theorem fire_of_frozen {d : StallDetector} {alive : UInt32} (h : d.frozen alive = true)
    (word : UInt32)
    (hlatched : d.stallLatched = true ↔ executorStallTicks ≤ d.executorAliveFrozen) :
    d.fire alive word = (⟨alive, min (d.executorAliveFrozen + 1) u32Max,
        decide (executorStallTicks ≤ d.executorAliveFrozen + 1), 0⟩,
      if d.executorAliveFrozen + 1 = executorStallTicks then withholdWord .core0ExecutorStall
      else word) := by
  unfold fire
  simp only [h, if_true]
  have hmin : executorStallTicks ≤ min (d.executorAliveFrozen + 1) u32Max
      ↔ executorStallTicks ≤ d.executorAliveFrozen + 1 := by
    unfold executorStallTicks u32Max
    omega
  by_cases hcross : executorStallTicks ≤ d.executorAliveFrozen + 1
  · rw [if_pos (hmin.2 hcross), decide_eq_true hcross]
    by_cases hold : executorStallTicks ≤ d.executorAliveFrozen
    · rw [if_pos (hlatched.2 hold), if_neg (by omega)]
    · rw [if_neg (fun hl => hold (hlatched.1 hl)), if_pos (by omega)]
  · have hnone : d.stallLatched = false := by
      cases hl : d.stallLatched with
      | false => rfl
      | true => exact absurd ((hlatched.1 hl).trans (Nat.le_succ _)) hcross
    rw [if_neg (fun h => hcross (hmin.1 h)), if_neg (by omega), decide_eq_false hcross, hnone]

/-- A sample with a beat: the second in a row clears the stall. -/
theorem fire_of_moving {d : StallDetector} {alive : UInt32} (h : d.frozen alive = false)
    (word : UInt32) :
    d.fire alive word = (⟨alive, 0, false,
        if d.frozenRecoveryTicks < 2 then d.frozenRecoveryTicks + 1 else d.frozenRecoveryTicks⟩,
      if d.frozenRecoveryTicks = 1 then clearWithholdIf word .core0ExecutorStall else word) := by
  have hdebounce : frozenRecoveryDebounceTicks = 2 := by decide
  unfold fire
  simp only [h, Bool.false_eq_true, if_false, hdebounce]
  rw [if_neg (show ¬executorStallTicks ≤ 0 by decide)]
  by_cases hlt : d.frozenRecoveryTicks < 2
  · rw [if_pos hlt, if_pos hlt]
    by_cases hone : d.frozenRecoveryTicks = 1
    · rw [if_pos hone, if_pos (by omega)]
    · rw [if_neg hone, if_neg (by omega)]
  · rw [if_neg hlt, if_neg hlt, if_neg (by omega)]

end StallDetector

/-! ## The tracker -/

/-- The same count as a value of its own. -/
structure ExecutorFreezeTracker where
  /-- The beat at the last sample, or the greatest number before the first. -/
  last : UInt32
  /-- Samples without a beat, in a row. -/
  frozenTicks : ℕ

/-- One sample of the tracker: there was no beat, so many have passed, and they are a stall. -/
def ExecutorFreezeTracker.observe (t : ExecutorFreezeTracker) (alive : UInt32)
    (stallTicks : ℕ) : (Bool × ℕ × Bool) × ExecutorFreezeTracker :=
  let last := if t.last = 4294967295 then alive else t.last
  let frozen := alive != 0 && alive == last
  let ticks := if frozen then min (t.frozenTicks + 1) u32Max else 0
  ((frozen, ticks, decide (0 < stallTicks) && decide (stallTicks ≤ ticks)), ⟨alive, ticks⟩)

/-- **The interrupt counts as the tracker does.** -/
theorem fire_eq_observe (d : StallDetector) (alive word : UInt32) :
    let seen := ExecutorFreezeTracker.observe ⟨d.lastExecutorAlive, d.executorAliveFrozen⟩ alive
      executorStallTicks
    d.frozen alive = seen.1.1
      ∧ (d.fire alive word).1.executorAliveFrozen = seen.1.2.1
      ∧ (d.fire alive word).1.executorAliveFrozen = seen.2.frozenTicks
      ∧ (d.fire alive word).1.lastExecutorAlive = seen.2.last
      ∧ (seen.1.2.2 = true ↔ executorStallTicks ≤ (d.fire alive word).1.executorAliveFrozen) := by
  have hfire : (d.fire alive word).1.executorAliveFrozen
        = (if d.frozen alive then min (d.executorAliveFrozen + 1) u32Max else 0)
      ∧ (d.fire alive word).1.lastExecutorAlive = alive := by
    cases hfrozen : d.frozen alive with
    | true =>
      unfold StallDetector.fire
      simp only [hfrozen, if_true]
      split <;> exact ⟨rfl, rfl⟩
    | false =>
      rw [StallDetector.fire_of_moving hfrozen]
      exact ⟨rfl, rfl⟩
  refine ⟨rfl, hfire.1, hfire.1, hfire.2, ?_⟩
  rw [hfire.1]
  unfold ExecutorFreezeTracker.observe
  rw [Bool.and_eq_true, decide_eq_true_iff, decide_eq_true_iff]
  exact ⟨And.right, fun h => ⟨by decide, h⟩⟩

/-- **The interrupt is the tracker, whatever it samples.** At every time both have the same beat and
the same count, the stall is latched exactly if the count is a stall, and a sample without a beat
records the stall exactly where the count becomes one, whatever the word holds by then. -/
theorem foldl_fire_eq_observe (samples : List (UInt32 × UInt32)) :
    let d := samples.foldl (fun d s => (d.fire s.1 s.2).1) StallDetector.new
    let t := samples.foldl (fun t s => (t.observe s.1 executorStallTicks).2)
      (⟨4294967295, 0⟩ : ExecutorFreezeTracker)
    t = ⟨d.lastExecutorAlive, d.executorAliveFrozen⟩
      ∧ (d.stallLatched = true ↔ executorStallTicks ≤ t.frozenTicks)
      ∧ ∀ alive word, (t.observe alive executorStallTicks).1.1 = true →
        (d.fire alive word).2 = if t.frozenTicks + 1 = executorStallTicks then
          withholdWord .core0ExecutorStall else word := by
  intro d t
  have hrun : t = ⟨d.lastExecutorAlive, d.executorAliveFrozen⟩
      ∧ (d.stallLatched = true ↔ executorStallTicks ≤ d.executorAliveFrozen) := by
    induction samples using List.reverseRecOn with
    | nil => exact ⟨rfl, by decide⟩
    | append_singleton samples s ih =>
      obtain ⟨hsame, hlatched⟩ := ih
      simp only [d, t, List.foldl_append, List.foldl_cons, List.foldl_nil] at hsame hlatched ⊢
      rw [hsame]
      generalize samples.foldl (fun (d : StallDetector) s => (d.fire s.1 s.2).1) .new = before
        at hlatched ⊢
      obtain ⟨-, -, hcount, hlast, -⟩ := fire_eq_observe before s.1 s.2
      refine ⟨by rw [hcount, hlast], ?_⟩
      by_cases hfrozen : before.frozen s.1 = true
      · rw [StallDetector.fire_of_frozen hfrozen s.2 hlatched, decide_eq_true_iff]
        simp only [executorStallTicks, u32Max]
        omega
      · rw [StallDetector.fire_of_moving (eq_false_of_ne_true hfrozen)]
        show false = true ↔ executorStallTicks ≤ 0
        decide
  refine ⟨hrun.1, ?_, ?_⟩
  · rw [hrun.1]
    exact hrun.2
  · rw [hrun.1]
    intro alive word hfrozen
    rw [StallDetector.fire_of_frozen hfrozen word hrun.2]

/-! ## The feed task -/

/-- Feeds with a block in flight and no motion that are a wedge. -/
def core1StallTicks : ℕ := 8

/-- Feeds with a host and no communication that are a wedge. -/
def commsStallTicks : ℕ := 6

/-- Feeds without a received byte after which there is no host. -/
def rxActiveTicks : ℕ := 12

/-- Feeds without a response sent that are a dead zone. -/
def deadZoneStallTicks : ℕ := 16

/-- The dead zone is not acted on in production. -/
def deadZoneBackstopArmed : Bool := false

/-- Responses are queued and none has been sent for long. -/
def deadZoneWithhold (responseDepth txCompleteFrozenTicks : ℕ) : Bool :=
  decide (0 < responseDepth) && decide (deadZoneStallTicks ≤ txCompleteFrozenTicks)

/-- What the feed task reads of the others. -/
structure Liveness where
  /-- The beat of motion. -/
  motionLiveness : UInt32
  /-- The beat of communication. -/
  commsProgress : UInt32
  /-- The beat of reception. -/
  rxActivity : UInt32
  /-- The beat of transmission. -/
  usbTxCompleted : UInt32
  /-- A block is in flight. -/
  executorRunning : Bool
  /-- The responses that are queued. -/
  responseDepth : ℕ
  deriving DecidableEq

/-- What the feed task remembers. -/
structure FeedTask where
  /-- What it read last. -/
  last : Liveness
  /-- Feeds without motion. -/
  core1FrozenTicks : ℕ
  /-- Feeds without communication. -/
  commsFrozenTicks : ℕ
  /-- Feeds without transmission. -/
  txCompleteFrozenTicks : ℕ
  /-- Feeds without reception. -/
  rxIdleTicks : ℕ
  /-- The reason it has recorded and not cleared. -/
  withheld : Option WithholdReason
  deriving DecidableEq

namespace FeedTask

/-- The task when it starts: no host is taken to be there. -/
def new (seen : Liveness) : FeedTask := ⟨seen, 0, 0, 0, rxActiveTicks, none⟩

/-- One more, or none. -/
def count (ticks : ℕ) (stuck : Bool) : ℕ := if stuck then min (ticks + 1) u32Max else 0

/-- What the task finds: a reason to withhold the feed, or none. -/
def look (task : FeedTask) (seen : Liveness) : FeedTask × Option WithholdReason :=
  let core1 := count task.core1FrozenTicks
    (seen.executorRunning && seen.motionLiveness == task.last.motionLiveness)
  let rxIdle := count task.rxIdleTicks (seen.rxActivity == task.last.rxActivity)
  let hostActive := decide (rxIdle < rxActiveTicks)
  let comms := count task.commsFrozenTicks
    (hostActive && seen.commsProgress == task.last.commsProgress)
  let tx := count task.txCompleteFrozenTicks (seen.usbTxCompleted == task.last.usbTxCompleted)
  let reason :=
    if core1StallTicks ≤ core1 then some .core1Motion
    else if commsStallTicks ≤ comms then some .core0Comms
    else if deadZoneBackstopArmed && deadZoneWithhold seen.responseDepth tx then some .deadZone
    else none
  (⟨seen, core1, comms, tx, rxIdle, task.withheld⟩, reason)

/-- The task never finds that the executor stands still. -/
theorem look_ne_stall (task : FeedTask) (seen : Liveness) :
    (task.look seen).2 ≠ some .core0ExecutorStall := by
  unfold look
  dsimp only
  split
  · decide
  · split
    · decide
    · split <;> decide

end FeedTask

end Galdr.Crash
