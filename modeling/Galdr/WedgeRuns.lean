import Galdr.WedgeBreadcrumb

/-!
# Whether the breadcrumb tells the truth

The feed task runs its loop at most twice a second and the interrupt samples four times a second;
beyond that any order of their steps is possible, with the interrupt between any two of them, and
the executor may stand still anywhere and for any time. While a wedge is declared and the watchdog
unfed, the word names a wedge, and it is not cleared before the next feed.

What fails is the way back. The interrupt clears a stall after two samples in a row that saw a
beat. But there is one beat in two samples at most, so one of two in a row sees none, and the
debounce starts again: a stall that was survived stays in the word (`Run.inv`) until the feed task
writes over it or the beat has used up its 32 bits (`tellsTruth_iff`).
-/

namespace Galdr.Crash

/-- Milliseconds without a feed after which the watchdog resets the board. -/
def watchdogTimeoutMs : ℕ := 8000

/-- Where the feed task is in its loop. -/
inductive FeedPhase
  /-- It waits for the next round. -/
  | waiting
  /-- It has beaten and found a reason or none. -/
  | judged (reason : Option WithholdReason)
  /-- It has fed the watchdog. -/
  | fed
  deriving DecidableEq

/-- A step of one of the two. -/
inductive Action
  /-- The interrupt takes a sample. -/
  | sample
  /-- The feed task beats, reads the others and judges. -/
  | beat (seen : Liveness)
  /-- It records the reason it found, or feeds the watchdog. -/
  | act
  /-- After feeding it clears the reason it had recorded. -/
  | clear
  deriving DecidableEq

/-- The state of the board, with the history of its run. -/
structure Run (T : Type) where
  /-- The word. -/
  withhold : UInt32
  /-- The beat of the feed task. -/
  executorAlive : UInt32
  /-- What the interrupt remembers. -/
  detector : StallDetector
  /-- What the feed task remembers. -/
  feed : FeedTask
  /-- Where the feed task is. -/
  phase : FeedPhase
  /-- The time of the last step. -/
  now : T
  /-- The time of the last sample, or when the timer was started, and the beats until then. -/
  sampled : T × ℕ
  /-- The time of the last beat. -/
  bumped : Option T
  /-- The beats. -/
  beats : ℕ
  /-- A wedge has been declared and the watchdog not been fed since. -/
  declared : Bool
  /-- The last reason that was recorded. -/
  recorded : Option WithholdReason
  /-- A stall of the executor has been recorded. -/
  stalled : Bool
  /-- The rounds that have fed the watchdog since a reason was recorded. -/
  healthy : ℕ
  /-- A reason was cleared before the watchdog was fed. -/
  lost : Bool

namespace Run

variable {T : Type}

/-- The start: no reason, no beat, no sample. -/
def start (now : T) (seen : Liveness) : Run T where
  withhold := 0
  executorAlive := 0
  detector := .new
  feed := .new seen
  phase := .waiting
  now := now
  sampled := (now, 0)
  bumped := none
  beats := 0
  declared := false
  recorded := none
  stalled := false
  healthy := 0
  lost := false

/-- The word is written. -/
def write (r : Run T) (word : UInt32) : Run T :=
  { r with withhold := word, lost := r.lost || (r.declared && r.withhold != 0 && word == 0) }

/-- A sample. -/
def onSample (r : Run T) (t : T) : Run T :=
  let fired := r.detector.fire r.executorAlive r.withhold
  let stall := fired.1.stallLatched && !r.detector.stallLatched
  { r.write fired.2 with
    detector := fired.1
    now := t
    sampled := (t, r.beats)
    declared := r.declared || stall
    recorded := if stall then some .core0ExecutorStall else r.recorded
    stalled := r.stalled || stall
    healthy := if stall then 0 else r.healthy }

/-- A beat, and what the feed task finds. -/
def onBeat (r : Run T) (t : T) (seen : Liveness) : Run T :=
  { r with
    executorAlive := r.executorAlive + 1
    feed := (r.feed.look seen).1
    phase := .judged (r.feed.look seen).2
    now := t
    bumped := some t
    beats := r.beats + 1 }

/-- What the feed task does about it. -/
def onAct (r : Run T) (t : T) : Run T :=
  match r.phase with
  | .judged (some reason) =>
    { r.write (withholdWord reason) with
      feed := { r.feed with withheld := some reason }
      phase := .waiting
      now := t
      declared := true
      recorded := some reason
      healthy := 0 }
  | .judged none => { r with phase := .fed, now := t, declared := false }
  | _ => r

/-- The end of a round that has fed the watchdog. -/
def onClear (r : Run T) (t : T) : Run T :=
  let word := match r.feed.withheld with
    | some reason => clearWithholdIf r.withhold reason
    | none => r.withhold
  { r.write word with
    feed := { r.feed with withheld := none }
    phase := .waiting
    now := t
    healthy := r.healthy + 1 }

/-- A step at a time. -/
def next (r : Run T) (t : T) : Action → Run T
  | .sample => r.onSample t
  | .beat seen => r.onBeat t seen
  | .act => r.onAct t
  | .clear => r.onClear t

/-- The feed task is where it takes the step. -/
def Ready (phase : FeedPhase) : Action → Prop
  | .sample => True
  | .beat _ => phase = .waiting
  | .act => phase ≠ .waiting ∧ phase ≠ .fed
  | .clear => phase = .fed

instance (phase : FeedPhase) (a : Action) : Decidable (Ready phase a) := by
  cases a <;> unfold Ready <;> infer_instance

variable [Field T] [LinearOrder T]

/-- A step may be taken at a time: later than the last one, samples a quarter of a second apart
and none left out, and beats at least half a second apart. -/
structure Admits (r : Run T) (t : T) (a : Action) : Prop where
  /-- Time goes on. -/
  later : r.now < t
  /-- The feed task is there. -/
  ready : Ready r.phase a
  /-- Samples are on time. -/
  onTime : if a = .sample then t = r.sampled.1 + (sampleIntervalMs : T)
    else t < r.sampled.1 + (sampleIntervalMs : T)
  /-- Beats are apart. -/
  apart : ∀ seen, a = .beat seen → ∀ u ∈ r.bumped, u + (watchdogFeedIntervalMs : T) ≤ t

/-- The states of the runs from a start. -/
inductive Reachable (now : T) (seen : Liveness) : Run T → Prop
  /-- The start. -/
  | start : Reachable now seen (start now seen)
  /-- One step more. -/
  | step {r : Run T} (h : Reachable now seen r) {t : T} {a : Action} (hadmits : r.Admits t a) :
    Reachable now seen (r.next t a)

/-- Before the next sample the executor has stood still for as long as the watchdog waits. -/
def StoodStill (r : Run T) : Prop :=
  ∃ u ∈ r.bumped, u + (watchdogTimeoutMs : T) ≤ r.sampled.1 + (sampleIntervalMs : T)

/-- **The breadcrumb tells the truth.** While a wedge is declared and the watchdog unfed, and when
the executor has stood still for too long, a reset finds the position suspect; no reason was
cleared before the watchdog was fed again; and when a stall has been survived and so many rounds
have fed the watchdog, the word is empty. -/
structure TellsTruth (rounds : ℕ) (r : Run T) : Prop where
  suspect : r.declared = true ∨ r.StoodStill → positionSuspect r.withhold = true
  kept : r.lost = false
  cleared : r.stalled = true → rounds ≤ r.healthy → r.withhold = 0

/-- A stall was the last to be recorded, and so many rounds have fed the watchdog since. -/
def Survived (rounds : ℕ) (r : Run T) : Prop :=
  r.recorded = some .core0ExecutorStall ∧ rounds ≤ r.healthy

/-! ## What holds of every run -/

omit [LinearOrder T] in
/-- A feed interval is two samples. -/
theorem interval_add_interval :
    (watchdogFeedIntervalMs : T) = (sampleIntervalMs : T) + (sampleIntervalMs : T) := by
  rw [← Nat.cast_add]
  rfl

/-- What holds of every state that a run reaches before the beat has used up its 32 bits. -/
structure Inv (r : Run T) : Prop where
  alive : r.executorAlive.toNat = r.beats
  latched : r.detector.stallLatched = true ↔ executorStallTicks ≤ r.detector.executorAliveFrozen
  seeded : r.detector = .new ∧ r.sampled.2 = 0 ∨ r.detector.lastExecutorAlive.toNat = r.sampled.2
  fresh : r.beats = 0 → r.bumped = none
  order : r.sampled.2 ≤ r.beats ∧ r.sampled.1 ≤ r.now ∧ ∀ u ∈ r.bumped, u ≤ r.now
  since : r.sampled.2 < r.beats → ∃ u ∈ r.bumped, r.sampled.1 < u
  /-- As many samples have seen no beat as there was time for since the last one. -/
  count : r.sampled.2 = r.beats → ∀ u ∈ r.bumped,
    executorStallTicks ≤ r.detector.executorAliveFrozen
      ∨ r.sampled.1 < u + (sampleIntervalMs : T) * (r.detector.executorAliveFrozen + 1)
  /-- The debounce of a recorded stall has counted one sample at most, and then the next one
  comes before another beat. -/
  debounce : r.recorded = some .core0ExecutorStall →
    r.detector.frozenRecoveryTicks = 0
      ∨ r.detector.frozenRecoveryTicks = 1 ∧ r.sampled.2 = r.beats
        ∧ ∃ u ∈ r.bumped, r.sampled.1 < u + (sampleIntervalMs : T)
  clean : r.recorded = none → r.withhold = 0 ∧ r.feed.withheld = none ∧ r.declared = false
  stall : r.recorded = some .core0ExecutorStall →
    r.withhold = withholdWord .core0ExecutorStall ∧ r.stalled = true ∧ 0 < r.beats
  other : ∀ reason, r.recorded = some reason → reason ≠ .core0ExecutorStall →
    r.withhold = withholdWord reason ∧ r.feed.withheld = some reason ∧ r.healthy = 0
        ∧ (r.phase = .fed → r.declared = false)
      ∨ r.withhold = 0 ∧ r.declared = false
  kinds : r.feed.withheld ≠ some .core0ExecutorStall
    ∧ r.phase ≠ .judged (some .core0ExecutorStall)
  /-- When enough samples have seen no beat the word is that of the stall, or the feed task has
  written over it and waits. -/
  standing : executorStallTicks ≤ r.detector.executorAliveFrozen → r.sampled.2 = r.beats →
    r.withhold = withholdWord .core0ExecutorStall
      ∨ r.phase = .waiting ∧ ∃ reason, r.withhold = withholdWord reason
  kept : r.lost = false

namespace Inv

variable {r : Run T} {t : T} {seen : Liveness}

theorem start (now : T) (seen : Liveness) : Inv (Run.start now seen) where
  alive := rfl
  latched := ⟨(nomatch ·), fun h => absurd h (by decide : ¬executorStallTicks ≤ 0)⟩
  seeded := .inl ⟨rfl, rfl⟩
  fresh _ := rfl
  order := ⟨le_rfl, le_rfl, fun _ hu => nomatch hu⟩
  since h := absurd h (lt_irrefl 0)
  count _ _ hu := nomatch hu
  debounce h := nomatch h
  clean _ := ⟨rfl, rfl, rfl⟩
  stall h := nomatch h
  other _ h := nomatch h
  kinds := ⟨(nomatch ·), (nomatch ·)⟩
  standing h _ := absurd h (by decide : ¬executorStallTicks ≤ 0)
  kept := rfl

theorem alive_eq_zero (hinv : Inv r) : r.executorAlive = 0 ↔ r.beats = 0 := by
  rw [← hinv.alive, ← UInt32.toNat_inj]
  rfl

/-- A sample sees no beat just when there has been one and none since the last sample. -/
theorem frozen_iff (hinv : Inv r) (hbeats : r.beats < 4294967295) :
    r.detector.frozen r.executorAlive = true
      ↔ 0 < r.beats ∧ (r.sampled.2 = r.beats ∨ r.detector = .new) := by
  have halive := hinv.alive_eq_zero
  unfold StallDetector.frozen StallDetector.baseline
  rw [Bool.and_eq_true, bne_iff_ne, beq_iff_eq, Ne, halive, Nat.pos_iff_ne_zero]
  refine and_congr_right fun hpos => ?_
  obtain ⟨hnew, hnone⟩ | hlast := hinv.seeded
  · rw [hnew]
    exact ⟨fun _ => .inr rfl, fun _ => (if_pos rfl).symm⟩
  · have hle := hinv.order.1
    have hseeded : r.detector.lastExecutorAlive ≠ 4294967295 := by
      intro h
      rw [h, show (4294967295 : UInt32).toNat = 4294967295 from rfl] at hlast
      omega
    rw [if_neg hseeded, ← UInt32.toNat_inj, hinv.alive, hlast]
    refine ⟨fun h => .inl h.symm, ?_⟩
    rintro (h | h)
    · exact h.symm
    · exact absurd (by rw [h]; rfl) hseeded

/-- While a wedge is declared the word names one. -/
theorem suspect_of_declared (hinv : Inv r) (h : r.declared = true) :
    positionSuspect r.withhold = true := by
  have hfed {P : Prop} (hnot : r.declared = false) : P := by
    rw [h] at hnot
    exact nomatch hnot
  cases hrec : r.recorded with
  | none => exact hfed (hinv.clean hrec).2.2
  | some reason =>
    by_cases hstall : reason = .core0ExecutorStall
    · subst hstall
      rw [(hinv.stall hrec).1, positionSuspect_withholdWord]
    · obtain ⟨hword, -⟩ | ⟨-, hnot⟩ := hinv.other reason hrec hstall
      · rw [hword, positionSuspect_withholdWord]
      · exact hfed hnot

/-- A beat. -/
theorem onBeat [IsStrictOrderedRing T] (hinv : Inv r) (hbeats : r.beats + 1 < 4294967295)
    (hadmits : r.Admits t (.beat seen)) : Inv (r.onBeat t seen) where
  alive := by
    have halive := hinv.alive
    unfold Run.onBeat
    dsimp only
    rw [UInt32.toNat_add, halive, UInt32.toNat_one, Nat.mod_eq_of_lt (by omega)]
  latched := hinv.latched
  seeded := hinv.seeded
  fresh h := absurd h (Nat.succ_ne_zero _)
  order := by
    refine ⟨hinv.order.1.trans (Nat.le_succ _), hinv.order.2.1.trans hadmits.later.le, ?_⟩
    rintro u ⟨⟩
    exact le_rfl
  since _ := ⟨t, rfl, hinv.order.2.1.trans_lt hadmits.later⟩
  count h := absurd h (by have := hinv.order.1; exact Nat.ne_of_lt (Nat.lt_succ_of_le this))
  debounce hrec := by
    obtain hzero | ⟨-, -, u, hu, hlt⟩ := hinv.debounce hrec
    · exact .inl hzero
    · -- The last beat was half a second ago, and the next sample should have been taken by now.
      have hapart := hadmits.apart seen rfl u hu
      have htime := hadmits.onTime
      rw [if_neg (by intro h; exact nomatch h)] at htime
      rw [interval_add_interval] at hapart
      linarith
  clean hrec := hinv.clean hrec
  stall hrec := ⟨(hinv.stall hrec).1, (hinv.stall hrec).2.1, Nat.succ_pos _⟩
  other reason hrec hne := by
    obtain ⟨hword, hheld, hhealthy, -⟩ | hnone := hinv.other reason hrec hne
    · exact .inl ⟨hword, hheld, hhealthy, (nomatch ·)⟩
    · exact .inr hnone
  kinds := by
    refine ⟨hinv.kinds.1, fun h => r.feed.look_ne_stall seen ?_⟩
    exact FeedPhase.judged.inj h
  standing _ h := absurd h (by have := hinv.order.1; exact Nat.ne_of_lt (Nat.lt_succ_of_le this))
  kept := hinv.kept

/-- The word of a stall is that of the last reason recorded. -/
theorem recorded_of_stall (hinv : Inv r) (h : r.withhold = withholdWord .core0ExecutorStall) :
    r.recorded = some .core0ExecutorStall := by
  cases hrec : r.recorded with
  | none => exact absurd ((hinv.clean hrec).1.symm.trans h).symm (withholdWord_ne_zero _)
  | some reason =>
    by_contra hne
    have hne' : reason ≠ .core0ExecutorStall := fun heq => hne (congrArg some heq)
    obtain ⟨hword, -⟩ | ⟨hzero, -⟩ := hinv.other reason hrec hne'
    · exact hne' (withholdWord_inj.1 (hword.symm.trans h))
    · exact withholdWord_ne_zero _ (h.symm.trans hzero)

/-- What the feed task does about what it found. -/
theorem onAct (hinv : Inv r) (hadmits : r.Admits t .act) : Inv (r.onAct t) := by
  have hready : r.phase ≠ .waiting ∧ r.phase ≠ .fed := hadmits.ready
  have horder : r.sampled.2 ≤ r.beats ∧ r.sampled.1 ≤ t ∧ ∀ u ∈ r.bumped, u ≤ t :=
    ⟨hinv.order.1, hinv.order.2.1.trans hadmits.later.le,
      fun u hu => (hinv.order.2.2 u hu).trans hadmits.later.le⟩
  unfold Run.onAct
  cases hphase : r.phase with
  | waiting => exact absurd hphase hready.1
  | fed => exact absurd hphase hready.2
  | judged found =>
    cases found with
    | none =>
      exact { hinv with
        order := horder
        clean := fun hrec => ⟨(hinv.clean hrec).1, (hinv.clean hrec).2.1, rfl⟩
        other := fun reason hrec hne => by
          obtain ⟨hword, hheld, hhealthy, -⟩ | ⟨hword, -⟩ := hinv.other reason hrec hne
          · exact .inl ⟨hword, hheld, hhealthy, fun _ => rfl⟩
          · exact .inr ⟨hword, rfl⟩
        kinds := ⟨hinv.kinds.1, (nomatch ·)⟩
        standing := fun hticks hbeats => by
          obtain hstall | ⟨hwaiting, -⟩ := hinv.standing hticks hbeats
          · exact .inl hstall
          · exact absurd hwaiting hready.1 }
    | some reason =>
      have hne : reason ≠ .core0ExecutorStall := by
        rintro rfl
        exact hinv.kinds.2 hphase
      exact {
        alive := hinv.alive
        latched := hinv.latched
        seeded := hinv.seeded
        fresh := hinv.fresh
        order := horder
        since := hinv.since
        count := hinv.count
        debounce := fun hrec => absurd (Option.some.inj hrec) hne
        clean := fun hrec => nomatch hrec
        stall := fun hrec => absurd (Option.some.inj hrec) hne
        other := by
          rintro _ ⟨⟩ -
          exact .inl ⟨rfl, rfl, rfl, (nomatch ·)⟩
        kinds := ⟨fun h => hne (Option.some.inj h), (nomatch ·)⟩
        standing := fun _ _ => .inr ⟨rfl, reason, rfl⟩
        kept := by
          unfold write
          dsimp only
          rw [hinv.kept, beq_eq_false_iff_ne.2 (withholdWord_ne_zero reason), Bool.and_false,
            Bool.or_false] }

/-- The word that the end of a round leaves: it is cleared only if it holds the reason that the
feed task had recorded, and the watchdog has been fed. -/
theorem clear_cases (hinv : Inv r) (hphase : r.phase = .fed) :
    (r.onClear t).withhold = r.withhold ∨ (r.onClear t).withhold = 0 ∧ r.declared = false
      ∧ (∀ reason, r.recorded = some reason → reason ≠ .core0ExecutorStall)
      ∧ r.withhold ≠ withholdWord .core0ExecutorStall := by
  unfold Run.onClear
  cases hheld : r.feed.withheld with
  | none => exact .inl rfl
  | some reason =>
    show clearWithholdIf r.withhold reason = _ ∨ clearWithholdIf r.withhold reason = _ ∧ _
    by_cases hword : r.withhold = withholdWord reason
    · have hne : reason ≠ .core0ExecutorStall := fun h => hinv.kinds.1 (h ▸ hheld)
      have hstall : r.withhold ≠ withholdWord .core0ExecutorStall := by
        rw [hword]
        exact fun h => hne (withholdWord_inj.1 h)
      rw [hword, clearWithholdIf_self]
      have hrecorded : ∀ other, r.recorded = some other → other ≠ .core0ExecutorStall := by
        rintro other hrec rfl
        exact hstall (hinv.stall hrec).1
      refine .inr ⟨rfl, ?_, hrecorded, hword ▸ hstall⟩
      cases hrec : r.recorded with
      | none => exact (hinv.clean hrec).2.2
      | some other =>
        obtain ⟨-, -, -, hfed⟩ | ⟨-, hnot⟩ := hinv.other other hrec (hrecorded other hrec)
        · exact hfed hphase
        · exact hnot
    · exact .inl (if_neg hword)

/-- The end of a round that has fed the watchdog. -/
theorem onClear (hinv : Inv r) (hadmits : r.Admits t .clear) : Inv (r.onClear t) := by
  have hphase : r.phase = .fed := hadmits.ready
  have hcases := hinv.clear_cases (t := t) hphase
  exact {
    alive := hinv.alive
    latched := hinv.latched
    seeded := hinv.seeded
    fresh := hinv.fresh
    order := ⟨hinv.order.1, hinv.order.2.1.trans hadmits.later.le,
      fun u hu => (hinv.order.2.2 u hu).trans hadmits.later.le⟩
    since := hinv.since
    count := hinv.count
    debounce := hinv.debounce
    clean := fun hrec => by
      obtain hkept | ⟨hzero, -⟩ := hcases
      · exact ⟨hkept.trans (hinv.clean hrec).1, rfl, (hinv.clean hrec).2.2⟩
      · exact ⟨hzero, rfl, (hinv.clean hrec).2.2⟩
    stall := fun hrec => by
      obtain hkept | ⟨-, -, hnot, -⟩ := hcases
      · exact ⟨hkept.trans (hinv.stall hrec).1, (hinv.stall hrec).2⟩
      · exact absurd rfl (hnot _ hrec)
    other := fun reason hrec hne => by
      obtain ⟨hword, hheld, -, hfed⟩ | ⟨hzero, hnot⟩ := hinv.other reason hrec hne
      · refine .inr ⟨?_, hfed hphase⟩
        unfold Run.onClear write
        simp only [hheld, hword, clearWithholdIf_self]
      · obtain hkept | ⟨hcleared, -⟩ := hcases
        · exact .inr ⟨hkept.trans hzero, hnot⟩
        · exact .inr ⟨hcleared, hnot⟩
    kinds := ⟨(nomatch ·), (nomatch ·)⟩
    standing := fun hticks hbeats => by
      obtain hstall | ⟨hwaiting, -⟩ := hinv.standing hticks hbeats
      · obtain hkept | ⟨-, -, -, hnot⟩ := hcases
        · exact .inl (hkept.trans hstall)
        · exact absurd hstall hnot
      · rw [hphase] at hwaiting
        exact nomatch hwaiting
    kept := by
      show (r.lost || (r.declared && r.withhold != 0 && (r.onClear t).withhold == 0)) = false
      rw [hinv.kept, Bool.false_or]
      obtain hkept | ⟨-, hnot, -⟩ := hcases
      · rw [hkept, Bool.and_assoc, bne, Bool.not_and_self, Bool.and_false]
      · rw [hnot, Bool.false_and, Bool.false_and] }

/-! ### Samples -/

/-- A sample that sees no beat. -/
theorem onSample_still (hinv : Inv r) (hfrozen : r.detector.frozen r.executorAlive = true)
    (hcross : r.detector.executorAliveFrozen + 1 ≠ executorStallTicks) :
    r.onSample t = { r with
      detector := ⟨r.executorAlive, min (r.detector.executorAliveFrozen + 1) u32Max,
        decide (executorStallTicks ≤ r.detector.executorAliveFrozen + 1), 0⟩
      now := t
      sampled := (t, r.beats) } := by
  have hfire := StallDetector.fire_of_frozen hfrozen r.withhold hinv.latched
  rw [if_neg hcross] at hfire
  have hlatch : (decide (executorStallTicks ≤ r.detector.executorAliveFrozen + 1)
      && !r.detector.stallLatched) = false := by
    rw [Bool.and_eq_false_iff, decide_eq_false_iff_not, Bool.not_eq_false', hinv.latched]
    omega
  unfold Run.onSample write
  rw [hfire]
  dsimp only
  rw [hlatch, Bool.or_false, Bool.or_false, Bool.and_assoc, bne, Bool.not_and_self,
    Bool.and_false, Bool.or_false]
  rfl

/-- The sample that declares a stall. -/
theorem onSample_stall (hinv : Inv r) (hfrozen : r.detector.frozen r.executorAlive = true)
    (hcross : r.detector.executorAliveFrozen + 1 = executorStallTicks) :
    r.onSample t = { r with
      withhold := withholdWord .core0ExecutorStall
      detector := ⟨r.executorAlive, min (r.detector.executorAliveFrozen + 1) u32Max, true, 0⟩
      now := t
      sampled := (t, r.beats)
      declared := true
      recorded := some .core0ExecutorStall
      stalled := true
      healthy := 0 } := by
  have hfire := StallDetector.fire_of_frozen hfrozen r.withhold hinv.latched
  rw [if_pos hcross, decide_eq_true hcross.ge] at hfire
  have hlatch : r.detector.stallLatched = false := by
    rw [← Bool.not_eq_true, hinv.latched]
    omega
  unfold Run.onSample write
  rw [hfire]
  dsimp only
  rw [hlatch, beq_eq_false_iff_ne.2 (withholdWord_ne_zero _), Bool.and_false, Bool.or_false,
    Bool.not_false, Bool.and_self, Bool.or_true, Bool.or_true]
  rfl

/-- A sample that sees a beat leaves the word as it is: where it is that of a stall the debounce
has only begun. -/
theorem onSample_moving (hinv : Inv r) (hbeats : r.beats < 4294967295)
    (hfrozen : r.detector.frozen r.executorAlive = false) :
    r.onSample t = { r with
      detector := ⟨r.executorAlive, 0, false, if r.detector.frozenRecoveryTicks < 2
        then r.detector.frozenRecoveryTicks + 1 else r.detector.frozenRecoveryTicks⟩
      now := t
      sampled := (t, r.beats) } := by
  have hword : (if r.detector.frozenRecoveryTicks = 1 then
      clearWithholdIf r.withhold .core0ExecutorStall else r.withhold) = r.withhold := by
    by_cases hone : r.detector.frozenRecoveryTicks = 1
    · rw [if_pos hone]
      refine if_neg fun hstall => ?_
      have hrec : r.recorded = some .core0ExecutorStall := hinv.recorded_of_stall hstall
      obtain hzero | ⟨-, hsampled, -⟩ := hinv.debounce hrec
      · omega
      · have := (hinv.frozen_iff hbeats).2 ⟨(hinv.stall hrec).2.2, .inl hsampled⟩
        rw [hfrozen] at this
        exact nomatch this
    · exact if_neg hone
  have hfire := StallDetector.fire_of_moving hfrozen r.withhold
  rw [hword] at hfire
  unfold Run.onSample write
  rw [hfire]
  dsimp only
  rw [Bool.false_and, Bool.or_false, Bool.or_false, Bool.and_assoc, bne, Bool.not_and_self,
    Bool.and_false, Bool.or_false]
  rfl

/-- A sample. -/
theorem onSample [IsStrictOrderedRing T] (hinv : Inv r) (hbeats : r.beats < 4294967295)
    (hadmits : r.Admits t .sample) : Inv (r.onSample t) := by
  have htime : t = r.sampled.1 + (sampleIntervalMs : T) := by
    have := hadmits.onTime
    rwa [if_pos rfl] at this
  have hinterval : (0 : T) < (sampleIntervalMs : T) := Nat.cast_pos.2 (by decide)
  have horder : r.beats ≤ r.beats ∧ t ≤ t ∧ ∀ u ∈ r.bumped, u ≤ t :=
    ⟨le_rfl, le_rfl, fun u hu => (hinv.order.2.2 u hu).trans hadmits.later.le⟩
  -- The last beat is not before the sample before this one.
  have hrecent (hlt : r.sampled.2 < r.beats) : ∀ u ∈ r.bumped, t < u + (sampleIntervalMs : T) := by
    intro u hu
    obtain ⟨v, hv, hsince⟩ := hinv.since hlt
    rw [Option.mem_unique hu hv, htime]
    linarith
  cases hfrozen : r.detector.frozen r.executorAlive with
  | false =>
    have hmoved : ¬(0 < r.beats ∧ r.sampled.2 = r.beats) := by
      rintro ⟨hpos, hsame⟩
      have := (hinv.frozen_iff hbeats).2 ⟨hpos, .inl hsame⟩
      rw [hfrozen] at this
      exact nomatch this
    have hlt (hpos : 0 < r.beats) : r.sampled.2 < r.beats :=
      lt_of_le_of_ne hinv.order.1 fun hsame => hmoved ⟨hpos, hsame⟩
    rw [hinv.onSample_moving hbeats hfrozen]
    exact { hinv with
      latched := ⟨(nomatch ·), fun h => absurd h (by decide : ¬executorStallTicks ≤ 0)⟩
      seeded := .inr hinv.alive
      order := horder
      since := fun h => absurd h (lt_irrefl _)
      count := fun _ u hu => by
        rcases Nat.eq_zero_or_pos r.beats with hzero | hpos
        · rw [hinv.fresh hzero] at hu
          exact nomatch hu
        · right
          rw [Nat.cast_zero, zero_add, mul_one]
          exact hrecent (hlt hpos) u hu
      debounce := fun hrec => by
        have hpos := (hinv.stall hrec).2.2
        obtain hzero | ⟨-, hsame, -⟩ := hinv.debounce hrec
        · obtain ⟨u, hu, -⟩ := hinv.since (hlt hpos)
          dsimp only
          rw [hzero]
          exact .inr ⟨rfl, rfl, u, hu, hrecent (hlt hpos) u hu⟩
        · exact absurd ⟨hpos, hsame⟩ hmoved
      standing := fun h _ => absurd h (by decide : ¬executorStallTicks ≤ 0) }
  | true =>
    have hticks : executorStallTicks ≤ min (r.detector.executorAliveFrozen + 1) u32Max
        ↔ executorStallTicks ≤ r.detector.executorAliveFrozen + 1 := by
      unfold executorStallTicks u32Max
      omega
    have hcount : ∀ u ∈ r.bumped,
        executorStallTicks ≤ min (r.detector.executorAliveFrozen + 1) u32Max
          ∨ t < u + (sampleIntervalMs : T)
              * ((min (r.detector.executorAliveFrozen + 1) u32Max : ℕ) + 1) := by
      intro u hu
      rw [hticks]
      by_cases hmany : executorStallTicks ≤ r.detector.executorAliveFrozen + 1
      · exact .inl hmany
      right
      have hmin : min (r.detector.executorAliveFrozen + 1) u32Max
          = r.detector.executorAliveFrozen + 1 := by
        unfold executorStallTicks at hmany
        exact min_eq_left (by unfold u32Max; omega)
      rw [hmin, Nat.cast_add, Nat.cast_one]
      obtain ⟨hpos, hsame | hnew⟩ := (hinv.frozen_iff hbeats).1 hfrozen
      · obtain hold | hlt := hinv.count hsame u hu
        · exact absurd (hold.trans (Nat.le_succ _)) hmany
        · rw [htime]
          linarith
      · have hlt : r.sampled.2 < r.beats := by
          have hle := hinv.order.1
          have hseed : (StallDetector.new.lastExecutorAlive).toNat = 4294967295 := rfl
          obtain ⟨-, hzero⟩ | hlast := hinv.seeded
          · omega
          · rw [hnew, hseed] at hlast
            omega
        have hold := hrecent hlt u hu
        have : (0 : T) ≤ (sampleIntervalMs : T) * (r.detector.executorAliveFrozen : T) :=
          mul_nonneg hinterval.le (Nat.cast_nonneg _)
        linarith
    by_cases hcross : r.detector.executorAliveFrozen + 1 = executorStallTicks
    · rw [hinv.onSample_stall hfrozen hcross]
      exact { hinv with
        latched := ⟨fun _ => hticks.2 hcross.ge, fun _ => rfl⟩
        seeded := .inr hinv.alive
        order := horder
        since := fun h => absurd h (lt_irrefl _)
        count := fun _ => hcount
        debounce := fun _ => .inl rfl
        clean := fun hrec => nomatch hrec
        stall := fun _ => ⟨rfl, rfl, ((hinv.frozen_iff hbeats).1 hfrozen).1⟩
        other := by
          rintro _ ⟨⟩ hne
          exact absurd rfl hne
        standing := fun _ _ => .inl rfl }
    · rw [hinv.onSample_still hfrozen hcross]
      exact { hinv with
        latched := by rw [decide_eq_true_iff, hticks]
        seeded := .inr hinv.alive
        order := horder
        since := fun h => absurd h (lt_irrefl _)
        count := fun _ => hcount
        debounce := fun _ => .inl rfl
        standing := fun hmany _ => by
          have hold : executorStallTicks ≤ r.detector.executorAliveFrozen := by
            have := hticks.1 hmany
            omega
          obtain ⟨-, hsame | hnew⟩ := (hinv.frozen_iff hbeats).1 hfrozen
          · exact hinv.standing hold hsame
          · rw [hnew] at hold
            exact absurd hold (by decide : ¬executorStallTicks ≤ 0) }

/-- A step. -/
theorem next [IsStrictOrderedRing T] {a : Action} (hinv : Inv r)
    (hbeats : (r.next t a).beats < 4294967295) (hadmits : r.Admits t a) : Inv (r.next t a) := by
  cases a with
  | sample => exact hinv.onSample hbeats hadmits
  | beat seen => exact hinv.onBeat hbeats hadmits
  | act => exact hinv.onAct hadmits
  | clear => exact hinv.onClear hadmits

end Inv

omit [Field T] [LinearOrder T] in
/-- There are no fewer beats after a step. -/
theorem beats_le_next (r : Run T) (t : T) (a : Action) : r.beats ≤ (r.next t a).beats := by
  cases a with
  | sample => exact le_rfl
  | beat seen => exact Nat.le_succ _
  | act =>
    unfold next onAct
    cases r.phase with
    | judged found => cases found <;> exact le_rfl
    | _ => exact le_rfl
  | clear => exact le_rfl

/-- **Every state of a run keeps the invariant, until the beat has used up its 32 bits.** -/
theorem inv [IsStrictOrderedRing T] {now : T} {seen : Liveness} {r : Run T}
    (h : Reachable now seen r) (hbeats : r.beats < 4294967295) : Inv r := by
  induction h with
  | start => exact .start now seen
  | step h hadmits ih => exact (ih ((beats_le_next _ _ _).trans_lt hbeats)).next hbeats hadmits

/-- When the executor has stood still for as long as the watchdog waits, enough samples have seen
no beat. -/
theorem Inv.standing_of_stoodStill [IsStrictOrderedRing T] {r : Run T} (hinv : Inv r)
    (h : r.StoodStill) :
    executorStallTicks ≤ r.detector.executorAliveFrozen ∧ r.sampled.2 = r.beats := by
  obtain ⟨u, hu, hstill⟩ := h
  have hwait : (watchdogTimeoutMs : T) = (sampleIntervalMs : T) * (32 : ℕ) := by
    rw [← Nat.cast_mul]
    rfl
  have hinterval : (0 : T) < (sampleIntervalMs : T) := Nat.cast_pos.2 (by decide)
  rw [hwait] at hstill
  rcases hinv.order.1.eq_or_lt with hsame | hlt
  · refine ⟨?_, hsame⟩
    obtain hmany | hearly := hinv.count hsame u hu
    · exact hmany
    · have hcast : (32 : ℕ) < (r.detector.executorAliveFrozen : T) + 1 + 1 := by
        refine lt_of_mul_lt_mul_left ?_ hinterval.le
        linarith
      have : 32 < r.detector.executorAliveFrozen + 1 + 1 := by exact_mod_cast hcast
      unfold executorStallTicks
      omega
  · obtain ⟨v, hv, hsince⟩ := hinv.since hlt
    rw [Option.mem_unique hu hv] at hstill
    have : (sampleIntervalMs : T) * 1 ≤ (sampleIntervalMs : T) * (32 : ℕ) :=
      mul_le_mul_of_nonneg_left (by exact_mod_cast (by decide : 1 ≤ 32)) hinterval.le
    linarith

/-! ## A stall and healthy rounds after it -/

/-- Nothing moves, no block is in flight and there is no host. -/
def quiet : Liveness := ⟨0, 0, 0, 0, false, 0⟩

/-- So many samples on time. -/
def samples (r : Run ℚ) : ℕ → Run ℚ
  | 0 => r
  | n + 1 => (samples r n).onSample ((samples r n).sampled.1 + (sampleIntervalMs : ℚ))

/-- The first round of the feed task, after which the executor stands still for as long as it takes
to declare a stall. -/
def stallAtStart : Run ℚ :=
  samples ((((start (0 : ℚ) quiet).onBeat (1 : ℕ) quiet).onAct (2 : ℕ)).onClear (3 : ℕ)) 16

/-- A healthy round of the feed task and the two samples it takes. -/
def healthyRound (r : Run ℚ) : Run ℚ :=
  samples (((r.onBeat (r.sampled.1 + (10 : ℕ)) quiet).onAct (r.sampled.1 + (20 : ℕ))).onClear
    (r.sampled.1 + (30 : ℕ))) 2

/-- The feed task waits for a round and nothing is stuck. -/
structure Calm (r : Run ℚ) : Prop where
  phase : r.phase = .waiting
  sampled : r.now = r.sampled.1
  bumped : ∃ u ∈ r.bumped, u + (watchdogFeedIntervalMs : ℚ) ≤ r.sampled.1 + (10 : ℕ)
  beaten : 0 < r.beats ∧ r.sampled.2 = r.beats
  feed : r.feed.last = quiet ∧ rxActiveTicks ≤ r.feed.rxIdleTicks

theorem reachable_samples {r : Run ℚ} (h : Reachable 0 quiet r)
    (hnow : r.now < r.sampled.1 + (sampleIntervalMs : ℚ)) (n : ℕ) :
    Reachable 0 quiet (samples r n)
      ∧ (samples r n).now < (samples r n).sampled.1 + (sampleIntervalMs : ℚ) := by
  have hinterval : (0 : ℚ) < (sampleIntervalMs : ℚ) := Nat.cast_pos.2 (by decide)
  induction n with
  | zero => exact ⟨h, hnow⟩
  | succ n ih =>
    refine ⟨ih.1.step (a := .sample) ⟨ih.2, trivial, ?_, ?_⟩, ?_⟩
    · rw [if_pos rfl]
    · intro _ hbeat
      exact nomatch hbeat
    · exact lt_add_of_pos_right _ hinterval

/-- Nothing stuck is found where nothing is stuck. -/
theorem look_quiet {task : FeedTask} (hlast : task.last = quiet)
    (hidle : rxActiveTicks ≤ task.rxIdleTicks) :
    (task.look quiet).2 = none ∧ (task.look quiet).1.last = quiet
      ∧ rxActiveTicks ≤ (task.look quiet).1.rxIdleTicks := by
  have hcount : rxActiveTicks ≤ FeedTask.count task.rxIdleTicks true := by
    unfold rxActiveTicks at hidle ⊢
    unfold FeedTask.count u32Max
    rw [if_pos rfl]
    omega
  have hstill (b : Bool) : FeedTask.count task.commsFrozenTicks
      (decide (FeedTask.count task.rxIdleTicks true < rxActiveTicks) && b) = 0 := by
    rw [decide_eq_false hcount.not_gt]
    rfl
  refine ⟨?_, rfl, ?_⟩
  · unfold FeedTask.look
    simp only [hlast, beq_self_eq_true, hstill]
    rfl
  · unfold FeedTask.look
    simp only [hlast, beq_self_eq_true]
    exact hcount

/-- Until its samples a healthy round leaves the board as it was, but for the beat, the word and
what the feed task remembers. -/
theorem reachable_fed {r : Run ℚ} (h : Reachable 0 quiet r) (hcalm : Calm r) :
    ∃ fed : Run ℚ, fed = ((r.onBeat (r.sampled.1 + (10 : ℕ)) quiet).onAct
        (r.sampled.1 + (20 : ℕ))).onClear (r.sampled.1 + (30 : ℕ))
      ∧ Reachable 0 quiet fed ∧ fed.now = r.sampled.1 + (30 : ℕ) ∧ fed.phase = .waiting
      ∧ fed.sampled = r.sampled ∧ fed.bumped = some (r.sampled.1 + (10 : ℕ))
      ∧ (fed.feed.last = quiet ∧ rxActiveTicks ≤ fed.feed.rxIdleTicks)
      ∧ fed.recorded = r.recorded ∧ fed.beats = r.beats + 1 ∧ fed.healthy = r.healthy + 1 := by
  obtain ⟨hphase, hnow, ⟨u, hu, hapart⟩, -, hlast, hidle⟩ := hcalm
  obtain ⟨hnone, hremembers⟩ := look_quiet hlast hidle
  have hlater {early late : ℕ} (hlt : early < late) :
      r.sampled.1 + (early : ℚ) < r.sampled.1 + (late : ℚ) := by
    have : (early : ℚ) < (late : ℚ) := by exact_mod_cast hlt
    linarith
  have hbeat : Reachable 0 quiet (r.onBeat (r.sampled.1 + (10 : ℕ)) quiet) := by
    refine h.step (a := .beat quiet) ⟨?_, hphase, hlater (by decide), ?_⟩
    · rw [hnow]
      exact lt_add_of_pos_right _ (Nat.cast_pos.2 (by decide))
    · intro seen _ v hv
      rw [Option.mem_unique hv hu]
      exact hapart
  have hjudged : (r.onBeat (r.sampled.1 + (10 : ℕ)) quiet).phase = .judged none :=
    congrArg FeedPhase.judged hnone
  have hact : (r.onBeat (r.sampled.1 + (10 : ℕ)) quiet).onAct (r.sampled.1 + (20 : ℕ))
      = { r.onBeat (r.sampled.1 + (10 : ℕ)) quiet with
          phase := .fed, now := r.sampled.1 + (20 : ℕ), declared := false } := by
    unfold onAct
    rw [hjudged]
  have hfed : Reachable 0 quiet
      ((r.onBeat (r.sampled.1 + (10 : ℕ)) quiet).onAct (r.sampled.1 + (20 : ℕ))) := by
    refine hbeat.step (a := .act) ⟨hlater (by decide), ?_, hlater (by decide),
      fun _ h => nomatch h⟩
    rw [hjudged]
    exact ⟨(nomatch ·), (nomatch ·)⟩
  refine ⟨_, rfl, ?_⟩
  rw [hact] at hfed ⊢
  exact ⟨hfed.step (a := .clear) ⟨hlater (by decide), rfl, hlater (by decide),
    fun _ h => nomatch h⟩, rfl, rfl, rfl, rfl, hremembers, rfl, rfl, rfl⟩

/-- A healthy round from where the feed task waits. -/
theorem healthyRound_calm {r : Run ℚ} (h : Reachable 0 quiet r) (hcalm : Calm r)
    (hbeats : r.beats + 1 < 4294967295) :
    Reachable 0 quiet (healthyRound r) ∧ Calm (healthyRound r)
      ∧ (healthyRound r).recorded = r.recorded ∧ (healthyRound r).beats = r.beats + 1
      ∧ (healthyRound r).healthy = r.healthy + 1 := by
  obtain ⟨hpos, hlast⟩ := hcalm.beaten
  obtain ⟨fed, hfed, hreach, hnow, hphase, hsame, hbumped, hremembers, hrec, hcount, hhealthy⟩ :=
    reachable_fed h hcalm
  have hsoon : fed.now < fed.sampled.1 + (sampleIntervalMs : ℚ) := by
    rw [hnow, hsame]
    have : ((30 : ℕ) : ℚ) < (sampleIntervalMs : ℚ) := by exact_mod_cast (by decide : 30 < 250)
    linarith
  have hinv := inv hreach (by rw [hcount]; exact hbeats)
  -- The first sample sees the beat.
  have hmoving : fed.detector.frozen fed.executorAlive = false := by
    rw [← Bool.not_eq_true, hinv.frozen_iff (by omega)]
    rintro ⟨-, hstill | hnew⟩
    · rw [hsame] at hstill
      omega
    · have hseed : (StallDetector.new.lastExecutorAlive).toNat = 4294967295 := rfl
      have hseeded := hinv.seeded
      rw [hsame, hnew, hseed] at hseeded
      omega
  have hone := hinv.onSample_moving (t := fed.sampled.1 + (sampleIntervalMs : ℚ)) (by omega) hmoving
  -- The second sees none.
  have hreachOne := reachable_samples hreach hsoon 1
  have hsamples : samples fed 1 = fed.onSample (fed.sampled.1 + (sampleIntervalMs : ℚ)) := rfl
  have hinvOne := inv hreachOne.1 (by rw [hsamples, hone]; exact hcount ▸ hbeats)
  rw [hsamples] at hinvOne
  have hstill : (fed.onSample (fed.sampled.1 + (sampleIntervalMs : ℚ))).detector.frozen
      (fed.onSample (fed.sampled.1 + (sampleIntervalMs : ℚ))).executorAlive = true := by
    rw [hinvOne.frozen_iff (by rw [hone]; exact hcount ▸ hbeats), hone]
    exact ⟨by rw [hcount]; exact Nat.succ_pos _, .inl rfl⟩
  have htwo := hinvOne.onSample_still
    (t := fed.sampled.1 + (sampleIntervalMs : ℚ) + (sampleIntervalMs : ℚ)) hstill
    (by rw [hone]; exact (by decide : 0 + 1 ≠ executorStallTicks))
  have hround : healthyRound r = (fed.onSample (fed.sampled.1 + (sampleIntervalMs : ℚ))).onSample
      (fed.sampled.1 + (sampleIntervalMs : ℚ) + (sampleIntervalMs : ℚ)) := by
    unfold healthyRound
    rw [← hfed]
    rfl
  have hreachRound : Reachable 0 quiet (healthyRound r) := by
    have := (reachable_samples hreach hsoon 2).1
    unfold healthyRound
    rwa [← hfed]
  refine ⟨hreachRound, ?_⟩
  rw [hround, htwo, hone]
  refine ⟨⟨hphase, rfl, ⟨_, hbumped, ?_⟩, ⟨?_, rfl⟩, hremembers⟩, hrec, hcount, hhealthy⟩
  · dsimp only
    rw [hsame, interval_add_interval]
    linarith
  · exact hcount ▸ Nat.succ_pos _

/-- The run that declares a stall at its start. -/
theorem stallAtStart_calm : Reachable 0 quiet stallAtStart ∧ Calm stallAtStart
    ∧ stallAtStart.recorded = some .core0ExecutorStall ∧ stallAtStart.beats = 1
    ∧ stallAtStart.healthy = 0 := by
  have hbeat : Reachable 0 quiet ((start (0 : ℚ) quiet).onBeat (1 : ℕ) quiet) :=
    Reachable.start.step (a := .beat quiet)
      ⟨by decide +kernel, rfl, by decide +kernel, fun _ _ _ hu => nomatch hu⟩
  have hact := hbeat.step (t := (2 : ℕ)) (a := .act)
    ⟨by decide +kernel, ⟨by decide +kernel, by decide +kernel⟩, by decide +kernel,
      fun _ h => nomatch h⟩
  have hclear := hact.step (t := (3 : ℕ)) (a := .clear)
    ⟨by decide +kernel, by decide +kernel, by decide +kernel, fun _ h => nomatch h⟩
  refine ⟨(reachable_samples hclear (by decide +kernel) 16).1, ⟨by decide +kernel, by decide +kernel,
    ⟨(1 : ℕ), by decide +kernel, by decide +kernel⟩, by decide +kernel, by decide +kernel⟩,
    by decide +kernel, by decide +kernel, by decide +kernel⟩

/-- So many healthy rounds after the stall. -/
theorem survived_stall (rounds : ℕ) (hrounds : rounds ≤ 4000000000) :
    ∃ r, Reachable 0 quiet r ∧ Calm r ∧ r.recorded = some .core0ExecutorStall
      ∧ r.beats = rounds + 1 ∧ r.healthy = rounds := by
  induction rounds with
  | zero => exact ⟨stallAtStart, stallAtStart_calm⟩
  | succ n ih =>
    obtain ⟨r, hreach, hcalm, hrec, hbeats, hhealthy⟩ := ih (by omega)
    obtain ⟨hreach', hcalm', hrec', hbeats', hhealthy'⟩ :=
      healthyRound_calm hreach hcalm (by omega)
    exact ⟨healthyRound r, hreach', hcalm', hrec'.trans hrec, by omega, by omega⟩

/-! ## When the breadcrumb tells the truth -/

/-- **When the breadcrumb tells the truth.** Until the beat has used up its 32 bits it does just
when no stall was survived by so many rounds without the feed task having recorded another reason
since. -/
theorem tellsTruth_iff [IsStrictOrderedRing T] {now : T} {seen : Liveness} {r : Run T}
    (h : Reachable now seen r) (hbeats : r.beats < 4294967295) (rounds : ℕ) :
    r.TellsTruth (rounds + 1) ↔ ¬r.Survived (rounds + 1) := by
  have hinv := inv h hbeats
  constructor
  · rintro htruth ⟨hrec, hrounds⟩
    have hword := (hinv.stall hrec).1
    have hzero := htruth.cleared (hinv.stall hrec).2.1 hrounds
    exact withholdWord_ne_zero _ (hword.symm.trans hzero)
  · intro hnot
    refine ⟨?_, hinv.kept, ?_⟩
    · rintro (hdeclared | hstill)
      · exact hinv.suspect_of_declared hdeclared
      · obtain ⟨hmany, hsame⟩ := hinv.standing_of_stoodStill hstill
        obtain hword | ⟨-, reason, hword⟩ := hinv.standing hmany hsame
        · rw [hword, positionSuspect_withholdWord]
        · rw [hword, positionSuspect_withholdWord]
    · intro _ hrounds
      cases hrec : r.recorded with
      | none => exact (hinv.clean hrec).1
      | some reason =>
        have hne : reason ≠ .core0ExecutorStall := by
          rintro rfl
          exact hnot ⟨hrec, hrounds⟩
        obtain ⟨-, -, hhealthy, -⟩ | ⟨hzero, -⟩ := hinv.other reason hrec hne
        · omega
        · exact hzero

theorem stallAtStart_tellsTruth : stallAtStart.TellsTruth (0 + 1) :=
  (tellsTruth_iff stallAtStart_calm.1 (by decide +kernel) 0).2 (by
    rintro ⟨-, hrounds⟩
    rw [stallAtStart_calm.2.2.2.2] at hrounds
    exact absurd hrounds (by decide))

/-- **No number of healthy rounds clears a stall.** After four thousand million of them the word
still holds a stall that the executor has survived. -/
theorem stall_stays : ¬∃ rounds ≤ 4000000000, ∀ r : Run ℚ, Reachable 0 quiet r →
    r.TellsTruth rounds := by
  rintro ⟨rounds, hrounds, htruth⟩
  obtain ⟨r, hreach, -, hrec, hbeats, hhealthy⟩ := survived_stall rounds hrounds
  have hstall := (inv hreach (by omega)).stall hrec
  have hzero := (htruth r hreach).cleared hstall.2.1 hhealthy.ge
  exact withholdWord_ne_zero _ (hstall.1.symm.trans hzero)

end Run

end Galdr.Crash
